import CodeC.Proofs.Leetcode51Queens
import Mathlib.Data.List.Sort

/-!
# `51.cpp` finds the same boards as `51-2.cpp`

`51.cpp` keeps a queen in every row. The rows below the one that goes up are always back in column
0, so the board stands for the beginning of a vector, filled up with zeros, and the rounds pass
over the same vectors.
-/

namespace CodeC.Leetcode51
open Library

variable {n : ℕ}

/-- A row with its queen in column `c` -/
abbrev rowOf (n c : ℕ) : List Char := (List.replicate n '.').set c 'Q'

lemma find_rowOf {c : ℕ} (hc : c < n) : find (rowOf n c) = c := by
  have hidx : (rowOf n c).findIdx? (· == 'Q') = some c := by
    rw [List.findIdx?_eq_some_iff_getElem]
    refine ⟨by simpa using hc, by simp, fun j hj => ?_⟩
    have hjc : c ≠ j := by omega
    simp [hjc]
  rw [find, hidx]

lemma clear_rowOf (n c : ℕ) : (rowOf n c).set c '.' = List.replicate n '.' := by
  rw [rowOf, List.set_set]
  apply List.ext_getElem
  · simp
  · intro i hi hi'
    simp

lemma modify_length_append {α : Type} (f : α → α) (l r : List α) (a : α) :
    (l ++ a :: r).modify l.length f = l ++ f a :: r := by
  induction l with
  | nil => rfl
  | cons b l ih => exact congrArg (b :: ·) ih

lemma board_append (n : ℕ) (v w : List ℕ) : board n (v ++ w) = board n v ++ board n w :=
  List.map_append

lemma board_cons (n a : ℕ) (v : List ℕ) : board n (a :: v) = rowOf n a :: board n v := rfl

lemma length_board (n : ℕ) (v : List ℕ) : (board n v).length = v.length := List.length_map _

lemma write_board (q z : List ℕ) (row : List Char) (j : ℕ) (c : Char) :
    write (board n q ++ row :: board n z) q.length j c =
      board n q ++ row.set j c :: board n z := by
  rw [write, ← length_board n q]
  exact modify_length_append (fun row => row.set j c) (board n q) (board n z) row

lemma advance_board (q z : List ℕ) (a : ℕ) :
    advance (board n (q ++ a :: z)) q.length a = board n (q ++ (a + 1) :: z) := by
  rw [advance, if_pos (Int.natCast_nonneg a), board_append, board_cons, board_append, board_cons,
    Int.toNat_natCast, write_board, clear_rowOf, write_board]
  rfl

lemma reset_board (q z : List ℕ) (a : ℕ) :
    reset (board n (q ++ a :: z)) q.length a = board n (q ++ 0 :: z) := by
  rw [reset, board_append, board_cons, board_append, board_cons, Int.toNat_natCast, write_board,
    clear_rowOf, write_board]

lemma find_getD_board (q z : List ℕ) {a : ℕ} (ha : a < n) :
    find ((board n (q ++ a :: z)).getD q.length []) = a := by
  rw [board_append, board_cons, ← length_board n q, List.getD_eq_getElem?_getD,
    List.getElem?_append_right (Nat.le_refl _), Nat.sub_self, List.getElem?_cons_zero,
    Option.getD_some, find_rowOf ha]

lemma map_find_board {v : List ℕ} (hv : ∀ a ∈ v, a < n) : (board n v).map find = cols v := by
  rw [board, List.map_map]
  exact List.map_congr_left fun a ha => find_rowOf (hv a ha)

lemma pad_concat (n : ℕ) (q : List ℕ) (a : ℕ) :
    pad n (q ++ [a]) = q ++ a :: List.replicate (n - (q.length + 1)) 0 := by
  simp [pad]

lemma pad_concat_zero {q : List ℕ} (hq : q.length < n) : pad n (q ++ [0]) = pad n q := by
  rw [pad_concat, pad, ← List.replicate_succ]
  congr 2
  omega

/-- What `next` comes to when the last row of the beginning `q` is to go up: a later row goes back
to column 0 and an earlier one goes up, or none can. -/
inductive Next (n : ℕ) (q : List ℕ) (x : ℕ) : Option Board → Prop
  | last (hx : x = n ^ n) : Next n q x none
  | up (p : List ℕ) (a : ℕ) (hp : p <+: q) (hlen : p.length < n) (ha : a < n)
      (hlow : low n n (p ++ [a]) = x) : Next n q x (some (board n (pad n (p ++ [a]))))

lemma Next.append {q r : List ℕ} {x : ℕ} {o : Option Board} (h : Next n q x o) :
    Next n (q ++ r) x o := by
  cases h with
  | last hx => exact .last hx
  | up p a hp hlen ha hlow => exact .up p a (hp.trans (List.prefix_append q r)) hlen ha hlow

lemma nextRow_of_lt (res : Board) (i : ℕ) {second : ℤ} (h : second < (res.length : ℤ) - 1) :
    nextRow res i second = some (advance res i second) := by
  cases i with
  | zero => rw [nextRow, if_pos h]
  | succ i => rw [nextRow, if_pos h]

lemma length_board_pad {q : List ℕ} (a : ℕ) (hlen : q.length < n) :
    (board n (pad n (q ++ [a]))).length = n := by
  rw [length_board, length_pad]
  rwa [List.length_append, List.length_singleton]

lemma nextRow_board_up (q : List ℕ) {a : ℕ} (ha : a + 1 < n) (hlen : q.length < n) :
    Next n q (low n n (q ++ [a]) + n ^ (n - (q.length + 1)))
      (nextRow (board n (pad n (q ++ [a]))) q.length a) := by
  have hlt : (a : ℤ) < ((board n (pad n (q ++ [a]))).length : ℤ) - 1 := by
    rw [length_board_pad a hlen]
    omega
  rw [nextRow_of_lt _ _ hlt, pad_concat, advance_board, ← pad_concat]
  refine .up q (a + 1) (List.prefix_refl q) hlen ha ?_
  rw [low_concat a hlen, low_concat (a + 1) hlen, Nat.add_mul, Nat.one_mul, Nat.add_assoc,
    Nat.sub_sub]

/-- In the last column the row above has to go up. -/
lemma low_carry (q : List ℕ) {a : ℕ} (ha : a + 1 = n) (hlen : q.length < n) :
    low n n (q ++ [a]) + n ^ (n - (q.length + 1)) = low n n q + n ^ (n - q.length) := by
  have hpow : n ^ (n - q.length) = (a + 1) * n ^ (n - q.length - 1) := by
    rw [ha, pow_sub_eq_mul n hlen]
  rw [low_concat a hlen, hpow, Nat.add_mul, Nat.one_mul, Nat.add_assoc, Nat.sub_sub]

lemma nextRow_board (q : List ℕ) {a : ℕ} (hq : ∀ b ∈ q ++ [a], b < n) (hlen : q.length < n) :
    Next n q (low n n (q ++ [a]) + n ^ (n - (q.length + 1)))
      (nextRow (board n (pad n (q ++ [a]))) q.length a) := by
  induction q using List.reverseRecOn generalizing a with
  | nil =>
    have ha : a < n := hq a (by simp)
    by_cases hup : a + 1 < n
    · exact nextRow_board_up [] hup hlen
    · rw [low_carry [] (by omega) hlen, List.length_nil, nextRow, length_board_pad a hlen,
        if_neg (by omega)]
      exact .last (by rw [low_nil, Nat.zero_add, Nat.sub_zero])
  | append_singleton q b ih =>
    have ha : a < n := hq a (by simp)
    have hb : b < n := hq b (by simp)
    by_cases hup : a + 1 < n
    · exact nextRow_board_up (q ++ [b]) hup hlen
    · have hlen' : q.length < n := by
        rw [List.length_append] at hlen
        omega
      have hreset : reset (board n (pad n (q ++ [b] ++ [a]))) (q.length + 1) a =
          board n (pad n (q ++ [b])) := by
        have hrow := reset_board (n := n) (q ++ [b]) (List.replicate (n - ((q ++ [b]).length + 1)) 0) a
        rwa [← pad_concat, ← pad_concat, pad_concat_zero hlen, List.length_append,
          List.length_singleton] at hrow
      have hfind : find ((board n (pad n (q ++ [b]))).getD q.length []) = b := by
        rw [pad_concat]
        exact find_getD_board q _ hb
      rw [low_carry (q ++ [b]) (by omega) hlen, List.length_append, List.length_singleton, nextRow,
        length_board_pad a hlen, if_neg (by omega)]
      simp only [hreset, hfind]
      exact (ih (fun c hc => hq c (List.mem_append_left _ hc)) hlen').append

/-- Board and position before a call of `next`, and the least number that has not been dealt with.
The rows above the position are legal. -/
inductive Head (n : ℕ) : Board → ℤ × ℤ → ℕ → Prop
  | start : Head n (board n (List.replicate n 0)) ((n : ℤ) - 1, -1) 0
  | row (q : List ℕ) (a : ℕ) (hlt : ∀ b ∈ q ++ [a], b < n) (hlen : q.length < n)
      (hlegal : NonAttacking q) :
      Head n (board n (pad n (q ++ [a]))) (q.length, a)
        (low n n (q ++ [a]) + n ^ (n - (q.length + 1)))

lemma nonAttacking_nil : NonAttacking [] := by
  intro i j a b hji ha
  simp at ha

/-- The first call sets the queen of the last row to column 0 again. -/
lemma next_start (hn : 1 ≤ n) :
    next (board n (List.replicate n 0)) ((n : ℤ) - 1, -1) = some (board n (pad n ([] ++ [0]))) := by
  obtain ⟨k, rfl⟩ : ∃ k, n = k + 1 := ⟨n - 1, by omega⟩
  have hzeros : List.replicate (k + 1) 0 = List.replicate k 0 ++ [0] := List.replicate_succ'
  have hpad : pad (k + 1) ([] ++ [0]) = List.replicate (k + 1) 0 := by
    rw [pad_concat, List.nil_append, List.length_nil, ← List.replicate_succ]
    rfl
  have hlt : (-1 : ℤ) < ((board (k + 1) (List.replicate (k + 1) 0)).length : ℤ) - 1 := by
    rw [length_board, List.length_replicate]
    omega
  have hrow : write (board (k + 1) (List.replicate (k + 1) 0)) k 0 'Q' =
      board (k + 1) (List.replicate (k + 1) 0) := by
    have hwrite := write_board (n := k + 1) (List.replicate k 0) [] (rowOf (k + 1) 0) 0 'Q'
    rw [List.length_replicate, List.set_set, ← board_cons, ← board_append, ← hzeros] at hwrite
    exact hwrite
  have hlast : (((k + 1 : ℕ) : ℤ) - 1).toNat = k := by omega
  rw [next, if_neg (by omega), nextRow_of_lt _ _ hlt, advance, if_neg (by omega), hlast, hpad]
  exact congrArg some hrow

lemma Head.next_eq {res : Board} {pos : ℤ × ℤ} {x : ℕ} (hn : 1 ≤ n) (h : Head n res pos x) :
    (next res pos = none ∧ x = n ^ n) ∨
      ∃ p a, next res pos = some (board n (pad n (p ++ [a]))) ∧ (∀ b ∈ p ++ [a], b < n) ∧
        p.length < n ∧ NonAttacking p ∧ low n n (p ++ [a]) = x := by
  cases h with
  | start =>
    refine .inr ⟨[], 0, ?_, by simpa using Nat.lt_of_lt_of_le Nat.zero_lt_one hn, hn, nonAttacking_nil, ?_⟩
    · exact next_start hn
    · rw [low_concat 0 hn, low_nil, Nat.zero_mul]
  | row q a hlt hlen hlegal =>
    have hnext := nextRow_board q hlt hlen
    rw [next, if_neg (by simp), Int.toNat_natCast]
    generalize nextRow (board n (pad n (q ++ [a]))) q.length a = o at hnext ⊢
    cases hnext with
    | last hx => exact .inl ⟨rfl, hx⟩
    | up p b hp hlen' hb hlow =>
      refine .inr ⟨p, b, rfl, concat_lt (fun c hc => ?_) hb, hlen', hlegal.of_prefix hp, hlow⟩
      exact hlt c (List.mem_append_left _ (hp.mem hc))

/-- The boards found so far are those of the placements below the number of the head. -/
def Inv (n m : ℕ) (s : State) : Prop :=
  ∃ x out, Head n s.res s.pos x ∧ s.results = out.map (board n) ∧
    Enumerates n (Placement n) x out ∧ m = n ^ n - x

lemma illegal_board {v : List ℕ} (hv : Digits n n v) :
    (illegal (board n v) = ((n : ℤ), -1) ∧ NonAttacking v) ∨
      ∃ (q : List ℕ) (a : ℕ), q ++ [a] <+: v ∧ illegal (board n v) = ((q.length : ℤ), (a : ℤ)) ∧
        NonAttacking q ∧ ¬NonAttacking (q ++ [a]) := by
  rw [illegal, map_find_board hv.lt]
  cases hillegal : firstIllegal (cols v) with
  | none => exact .inl ⟨by simp [length_board, hv.length_eq], firstIllegal_eq_none hillegal⟩
  | some i =>
    obtain ⟨hi, hlegal, hbad⟩ := firstIllegal_eq_some hillegal
    have htake : v.take i ++ [v[i]] = v.take (i + 1) := List.take_append_getElem hi
    refine .inr ⟨v.take i, v[i], ?_, ?_, hlegal, htake ▸ hbad⟩
    · rw [htake]
      exact List.take_prefix _ _
    · rw [List.length_take, Nat.min_eq_left (Nat.le_of_lt hi)]
      simp only [getD_cols v (List.getElem?_eq_getElem hi)]

lemma prefix_concat_cases {p q v : List ℕ} {a b : ℕ} (hp : p ++ [a] <+: v) (hq : q ++ [b] <+: v)
    (hlegal : NonAttacking p) (hbad : ¬NonAttacking (q ++ [b])) : p ++ [a] <+: q ++ [b] := by
  refine List.prefix_of_prefix_length_le hp hq ?_
  by_contra hlen
  rw [List.length_append, List.length_append] at hlen
  have hpre : q ++ [b] <+: p := by
    refine List.prefix_of_prefix_length_le hq ((List.prefix_append p [a]).trans hp) ?_
    rw [List.length_append]
    simp only [List.length_singleton] at hlen ⊢
    omega
  exact hbad (hlegal.of_prefix hpre)

lemma pad_of_prefix {p r : List ℕ} (hp : p <+: r) (hr : r <+: pad n p) : pad n r = pad n p := by
  obtain ⟨t, rfl⟩ := hp
  have ht : t <+: List.replicate (n - p.length) 0 := (List.prefix_append_right_inj p).mp hr
  obtain ⟨hle, hzeros⟩ := List.prefix_replicate_iff.mp ht
  rw [pad, pad, hzeros, List.append_assoc, List.length_append, List.length_replicate,
    List.replicate_append_replicate]
  congr 2
  omega

/-- A complete board is left at its last row. -/
lemma head_full {v : List ℕ} (hn : 1 ≤ n) (hv : Digits n n v) (hlegal : NonAttacking v) :
    Head n (board n v) ((n : ℤ) - 1, find ((board n v).getD (n - 1) [])) (value n v + 1) := by
  obtain ⟨q, a, rfl⟩ : ∃ q a, v = q ++ [a] := by
    refine ⟨v.dropLast, v.getLast ?_, (List.dropLast_append_getLast _).symm⟩
    rintro rfl
    exact Nat.not_lt_zero _ (hv.length_eq ▸ hn)
  have hlen : q.length + 1 = n := by
    have hsize := hv.length_eq
    rwa [List.length_append] at hsize
  have hrow : find ((board n (q ++ [a])).getD (n - 1) []) = a := by
    rw [show n - 1 = q.length by omega]
    exact find_getD_board q [] (hv.lt a (by simp))
  have hpad : pad n (q ++ [a]) = q ++ [a] := by
    rw [pad, hv.length_eq, Nat.sub_self, List.replicate_zero, List.append_nil]
  have hhead := Head.row q a hv.lt (by omega) (hlegal.of_prefix (List.prefix_append q [a]))
  rw [hpad, hlen, Nat.sub_self, pow_zero, low_full hv.length_eq] at hhead
  have hpos : ((q.length : ℤ), (a : ℤ)) = ((n : ℤ) - 1, find ((board n (q ++ [a])).getD (n - 1) [])) := by
    rw [hrow, ← hlen, Nat.cast_add, Nat.cast_one, Int.add_sub_cancel]
  rwa [hpos] at hhead

section rounds

variable {x : ℕ} {out : List (List ℕ)} {results : List Board} {v : List ℕ}

lemma inv_record (hn : 1 ≤ n) (hplace : Placement n v) (hvalue : value n v = x)
    (hresults : results = out.map (board n)) (hout : Enumerates n (Placement n) x out) :
    Inv n (n ^ n - (x + 1)) ⟨board n v, ((n : ℤ) - 1, find ((board n v).getD (n - 1) [])),
      results ++ [board n v]⟩ := by
  have hhead := head_full hn hplace.digits hplace.nonAttacking
  rw [hvalue] at hhead
  refine ⟨x + 1, out ++ [v], hhead, ?_, hout.concat (placement_digits n) hplace hvalue, rfl⟩
  simp [hresults]

/-- All boards with the illegal rows are passed over. -/
lemma inv_cut {q : List ℕ} {b : ℕ} (hv : Digits n n v) (hpre : q ++ [b] <+: v)
    (hpad : pad n (q ++ [b]) = v) (hvalue : value n v = x) (hlegal : NonAttacking q)
    (hbad : ¬NonAttacking (q ++ [b])) (hresults : results = out.map (board n))
    (hout : Enumerates n (Placement n) x out) :
    Inv n (n ^ n - (x + n ^ (n - (q.length + 1))))
      ⟨board n v, ((q.length : ℤ), (b : ℤ)), results⟩ := by
  have hlen : (q ++ [b]).length ≤ n := hv.length_eq ▸ hpre.length_le
  have hlt : ∀ c ∈ q ++ [b], c < n := fun c hc => hv.lt c (hpre.mem hc)
  have hlow : low n n (q ++ [b]) = x := by rw [low_eq_value_pad, hpad, hvalue]
  have hqn : q.length < n := by
    rw [List.length_append] at hlen
    exact hlen
  have hhead := Head.row q b hlt hqn hlegal
  rw [hlow, hpad] at hhead
  refine ⟨_, out, hhead, hresults, hout.skip (Nat.le_add_right _ _) fun w hw hxw => ?_, rfl⟩
  have hle := hw.low_add_le hlt hlen hbad (hlow ▸ hxw)
  rwa [hlow, List.length_append] at hle

end rounds

lemma body_again {m : ℕ} {s s' : State} (hn : 1 ≤ n) (hinv : Inv n m s)
    (h : body n s = .again s') : ∃ k, k < m ∧ Inv n k s' := by
  obtain ⟨x, out, hhead, hresults, hout, rfl⟩ := hinv
  obtain ⟨hnext, -⟩ | ⟨p, a, hnext, hlt, hlen, hlegal, hlow⟩ := hhead.next_eq hn
  · simp [body, hnext] at h
  have hlen' : (p ++ [a]).length ≤ n := by
    rw [List.length_append]
    exact hlen
  have hv := digits_pad hlt hn hlen'
  have hvalue : value n (pad n (p ++ [a])) = x := by rw [← low_eq_value_pad, hlow]
  have hx : x < n ^ n := by
    have hless := value_lt hv.lt
    rwa [hvalue, hv.length_eq] at hless
  simp only [body, hnext] at h
  obtain ⟨hillegal, hplace⟩ | ⟨q, b, hq, hillegal, hlegal', hbad⟩ := illegal_board hv
  · rw [hillegal, if_pos rfl] at h
    obtain rfl := Round.again.inj h
    exact ⟨_, by omega, inv_record hn ⟨hv, hplace⟩ hvalue hresults hout⟩
  · have hqn : q.length < n := by
      have := hq.length_le
      rw [hv.length_eq, List.length_append, List.length_singleton] at this
      exact this
    rw [hillegal, if_neg (by simpa using Nat.ne_of_lt hqn)] at h
    obtain rfl := Round.again.inj h
    have hpre := prefix_concat_cases (List.prefix_append _ _) hq hlegal hbad
    have hpad := pad_of_prefix hpre hq
    have hpos : 0 < n ^ (n - (q.length + 1)) := Nat.pow_pos hn
    exact ⟨_, by omega, inv_cut hv hq hpad hvalue hlegal' hbad hresults hout⟩

lemma body_leave {m : ℕ} {s : State} {results : List Board} (hn : 1 ≤ n) (hinv : Inv n m s)
    (h : body n s = .leave results) :
    ∃ out : List (List ℕ),
      out.Pairwise (· < ·) ∧ (∀ v, v ∈ out ↔ Placement n v) ∧ results = out.map (board n) := by
  obtain ⟨x, out, hhead, hresults, hout, rfl⟩ := hinv
  obtain ⟨hnext, hx⟩ | ⟨p, a, hnext, -⟩ := hhead.next_eq hn
  · simp only [body, hnext] at h
    obtain rfl := Round.leave.inj h
    exact ⟨out, hout.sorted, hout.mem_iff_of_le (placement_digits n) (Nat.le_of_eq hx.symm),
      hresults⟩
  · simp only [body, hnext] at h
    split at h <;> cases h

lemma loop_boards (hn : 1 ≤ n) :
    ∃ rs : List (List ℕ), rs.Pairwise (· < ·) ∧ (∀ v, v ∈ rs ↔ Placement n v) ∧
      ∀ fuel, n ^ n < fuel → solveNQueens fuel n = some (rs.map (board n)) := by
  obtain ⟨r, ⟨rs, hsorted, hmem, rfl⟩, hloop⟩ := loop_total (I := Inv n)
    (fun _ _ _ => body_again hn) (fun _ _ _ => body_leave hn)
    (s := ⟨board n (List.replicate n 0), ((n : ℤ) - 1, -1), []⟩)
    ⟨0, [], .start, rfl, enumerates_nil, rfl⟩
  refine ⟨rs, hsorted, hmem, fun fuel hfuel => ?_⟩
  rw [← hloop fuel hfuel, solveNQueens, board, List.map_replicate]

/-- Both solvers return one list of boards. -/
theorem solveNQueens_agree (hn : 1 ≤ n) :
    ∃ boards : List Board, ∀ fuel, (n ^ n + 1) * (n + 1) ≤ fuel →
      solveNQueens fuel n = some boards ∧ V2.solveNQueens fuel n = some boards := by
  obtain ⟨rs, hsorted, hmem, hboards⟩ := loop_boards hn
  obtain ⟨rs', hsorted', hmem', hloop⟩ := V2.loop_placements hn
  obtain rfl : rs' = rs :=
    hsorted'.eq_of_mem_iff hsorted fun v => (hmem' v).trans (hmem v).symm
  have hlen : ∀ v ∈ rs', v.length = n := fun v hv => ((hmem v).mp hv).digits.length_eq
  refine ⟨rs'.map (board n), fun fuel hfuel => ⟨hboards fuel ?_, ?_⟩⟩
  · have hmul : (n ^ n + 1) * 1 ≤ (n ^ n + 1) * (n + 1) := Nat.mul_le_mul_left _ (by omega)
    omega
  · rw [V2.solveNQueens, hloop fuel hfuel, Option.map_some, V2.toResults_cols hlen]

/-- The two ways to place four queens -/
def fourQueens : List Board :=
  [[['.', 'Q', '.', '.'], ['.', '.', '.', 'Q'], ['Q', '.', '.', '.'], ['.', '.', 'Q', '.']],
    [['.', '.', 'Q', '.'], ['Q', '.', '.', '.'], ['.', '.', '.', 'Q'], ['.', 'Q', '.', '.']]]

theorem solveNQueens_agree_four : ∃ boards : List Board, boards = fourQueens ∧
    ∀ fuel, (4 ^ 4 + 1) * (4 + 1) ≤ fuel →
      solveNQueens fuel 4 = some boards ∧ V2.solveNQueens fuel 4 = some boards := by
  obtain ⟨boards, h⟩ := solveNQueens_agree (n := 4) (by decide)
  have hrun : solveNQueens 1285 4 = some fourQueens := by decide +kernel
  exact ⟨boards, Option.some.inj ((h 1285 (by decide)).1.symm.trans hrun), h⟩

end CodeC.Leetcode51
