import CodeC.Proofs.Leetcode37Blanks

/-!
# The sudoku solvers find the first completion

Both solvers backtrack over the digits of the blanks. They differ in the character that the cell
holds while its digits are tried, and in nothing that the search sees.
-/

namespace CodeC.Leetcode37
open Library Backtrack

variable {b : Board} {p q : Pos} {r : List ℕ} {a : ℕ}

/-- The last digit is legal beside the digits before it and the given ones. -/
def accept (b : Board) (r : List ℕ) : Bool :=
  let p := (blanks b).getD (r.length - 1) (0, 0)
  legal (fill b r) p (fill b r p)

lemma mem_grid_of_lt {i : ℕ} (hi : i < (blanks b).length) : (blanks b)[i] ∈ grid :=
  (mem_blanks.mp (List.getElem_mem hi)).1

lemma accept_concat (c : ℕ) (hr : r.length < (blanks b).length) :
    accept b (r ++ [c]) = legal (fill b r) (blanks b)[r.length] (one + c) := by
  have hp : (blanks b).getD ((r ++ [c]).length - 1) (0, 0) = (blanks b)[r.length] := by
    rw [List.length_append, List.length_singleton, Nat.add_sub_cancel, List.getD_eq_getElem?_getD,
      List.getElem?_eq_getElem hr, Option.getD_some]
  simp only [accept, hp]
  rw [← update_fill c hr, Function.update_self, legal_update _ _ _ _ (mem_grid_of_lt hr)]

/-- The loop over the characters picks the digit of the search, whatever the cell holds. -/
lemma firstLegal_eq_pick (x a : ℕ) (hr : r.length < (blanks b).length) :
    firstLegal (Function.update (fill b r) (blanks b)[r.length] x) (blanks b)[r.length] (one + a) =
      (pick 9 (accept b) r a).map (one + ·) := by
  have hrange : List.range' (one + a) (colon - (one + a)) = (List.range' a (9 - a)).map (one + ·) := by
    rw [List.map_add_range']
    congr 1
    simp only [one, colon]
    omega
  rw [firstLegal, hrange, List.find?_map, pick]
  congr 2
  funext c
  rw [Function.comp_apply, legal_update _ _ _ _ (mem_grid_of_lt hr), accept_concat c hr]

/-- `nextval` of `37.cpp` on a cell that is blank, or holds the next character to try. -/
lemma nextval_eq {x : ℕ} (hx : x = dot ∧ a = 0 ∨ x = one + a) (hr : r.length < (blanks b).length) :
    nextval (Function.update (fill b r) (blanks b)[r.length] x) (blanks b)[r.length] =
      match pick 9 (accept b) r a with
      | some c => (true, fill b (r ++ [c]))
      | none => (false, Function.update (fill b r) (blanks b)[r.length] (one + a)) := by
  have hcell : (if Function.update (fill b r) (blanks b)[r.length] x (blanks b)[r.length] = dot then
      Function.update (Function.update (fill b r) (blanks b)[r.length] x) (blanks b)[r.length] one
      else Function.update (fill b r) (blanks b)[r.length] x) =
      Function.update (fill b r) (blanks b)[r.length] (one + a) := by
    rw [Function.update_self, Function.update_idem]
    rcases hx with ⟨rfl, rfl⟩ | rfl
    · rw [if_pos rfl, Nat.add_zero]
    · rw [if_neg]
      simp only [one, dot]
      omega
  simp only [nextval, hcell]
  rw [Function.update_self, firstLegal_eq_pick _ _ hr]
  cases pick 9 (accept b) r a with
  | none => rfl
  | some c =>
    simp only [Option.map_some, Function.update_idem]
    rw [update_fill c hr]

/-- `nextval` of `37-2.cpp` on a cell that is blank, or holds the last character tried. -/
lemma V2.nextval_eq {x : ℕ} (hx : x = dot ∧ a = 0 ∨ x ≠ dot ∧ x + 1 = one + a)
    (hr : r.length < (blanks b).length) :
    V2.nextval (Function.update (fill b r) (blanks b)[r.length] x) (blanks b)[r.length] =
      match pick 9 (accept b) r a with
      | some c => (true, fill b (r ++ [c]))
      | none => (false, Function.update (fill b r) (blanks b)[r.length] x) := by
  have hcell : (if Function.update (fill b r) (blanks b)[r.length] x (blanks b)[r.length] = dot then
      one - 1 else Function.update (fill b r) (blanks b)[r.length] x (blanks b)[r.length]) + 1 =
      one + a := by
    rw [Function.update_self]
    rcases hx with ⟨rfl, rfl⟩ | ⟨hne, hx⟩
    · rw [if_pos rfl]
      rfl
    · rw [if_neg hne, hx]
  simp only [V2.nextval, hcell]
  rw [firstLegal_eq_pick _ _ hr]
  cases pick 9 (accept b) r a with
  | none => rfl
  | some c =>
    simp only [Option.map_some, Function.update_idem]
    rw [update_fill c hr]

/-- What the search needs of a version. `holds x a`: a cell with the character `x` is to be given a
digit from `a` on. -/
structure Refines (V : Version) (holds : ℕ → ℕ → Prop) : Prop where
  blank : holds dot 0
  nextpos : ∀ (b : Board) (p : Pos), p ∈ grid → (∀ q ∈ blanks b, index p ≤ index q) →
    V.nextpos b p = (blanks b).head?
  nextval : ∀ (b : Board) (r : List ℕ) (x a : ℕ) (hr : r.length < (blanks b).length), holds x a →
    ∃ y, V.nextval (Function.update (fill b r) (blanks b)[r.length] x) (blanks b)[r.length] =
      match pick 9 (accept b) r a with
      | some c => (true, fill b (r ++ [c]))
      | none => (false, Function.update (fill b r) (blanks b)[r.length] y)
  again : ∀ (b : Board) (q : Pos) (e : ℕ), ∃ x, holds x (e + 1) ∧
    V.again (Function.update b q (one + e)) q = Function.update b q x

lemma version_refines : Refines version fun x a => x = dot ∧ a = 0 ∨ x = one + a := by
  refine ⟨.inl ⟨rfl, rfl⟩, fun b p _ => nextpos_eq_head?,
    fun b r x a hr hx => ⟨one + a, nextval_eq hx hr⟩, fun b q e => ⟨one + e + 1, ?_, ?_⟩⟩
  · exact .inr (Nat.add_assoc one e 1)
  · simp only [version, Function.update_self, Function.update_idem]

lemma V2.version_refines :
    Refines V2.version fun x a => x = dot ∧ a = 0 ∨ x ≠ dot ∧ x + 1 = one + a := by
  refine ⟨.inl ⟨rfl, rfl⟩, fun b p => V2.nextpos_eq_head?,
    fun b r x a hr hx => ⟨x, V2.nextval_eq hx hr⟩, fun b q e => ⟨one + e, .inr ⟨?_, ?_⟩, rfl⟩⟩
  · simp only [one, dot]
    omega
  · exact Nat.add_assoc one e 1

/-- The state with the digits `r`, the last of which has just been written. -/
def written (b : Board) (r : List ℕ) : State :=
  ⟨fill b r, (blanks b).getD (r.length - 1) (0, 0), ((blanks b).take (r.length - 1)).reverse⟩

lemma written_concat (c : ℕ) (hr : r.length < (blanks b).length) :
    written b (r ++ [c]) =
      ⟨fill b (r ++ [c]), (blanks b)[r.length], ((blanks b).take r.length).reverse⟩ := by
  rw [written, List.length_append, List.length_singleton, Nat.add_sub_cancel,
    List.getD_eq_getElem?_getD, List.getElem?_eq_getElem hr, Option.getD_some]

lemma take_concat_reverse {i : ℕ} (hi : i < (blanks b).length) :
    ((blanks b).take (i + 1)).reverse = (blanks b)[i] :: ((blanks b).take i).reverse := by
  rw [← List.take_append_getElem hi, List.reverse_append, List.reverse_singleton,
    List.singleton_append]

lemma Refines.retreat_eq {V : Version} {holds : ℕ → ℕ → Prop} (hV : Refines V holds) {x : ℕ}
    (hx : holds x a) (hr : r.length < (blanks b).length) :
    V.retreat (Function.update (fill b r) (blanks b)[r.length] x) (blanks b)[r.length]
        ((blanks b).take r.length).reverse =
      (advance 9 (accept b) r.reverse a).map (written b) := by
  induction r using List.reverseRecOn generalizing a x with
  | nil =>
    obtain ⟨y, hval⟩ := hV.nextval b [] x a hr hx
    have hstack : ((blanks b).take ([] : List ℕ).length).reverse = [] := rfl
    rw [hstack, Version.retreat, hval, List.reverse_nil, advance]
    cases pick 9 (accept b) [] a with
    | none => rfl
    | some c => exact congrArg some (written_concat c hr).symm
  | append_singleton r e ih =>
    obtain ⟨y, hval⟩ := hV.nextval b (r ++ [e]) x a hr hx
    have hlen : (r ++ [e]).length = r.length + 1 := by simp
    have hr' : r.length < (blanks b).length := by omega
    have hrev : (r ++ [e]).reverse = e :: r.reverse := by simp
    have hback : (e :: r.reverse).reverse = r ++ [e] := by simp
    have hstack : ((blanks b).take (r ++ [e]).length).reverse =
        (blanks b)[r.length] :: ((blanks b).take r.length).reverse := by
      rw [hlen, take_concat_reverse hr']
    rw [hstack, Version.retreat, hval, hrev, advance, hback]
    cases hpick : pick 9 (accept b) (r ++ [e]) a with
    | some c =>
      simp only [if_true, Option.map_some]
      rw [written_concat c hr, hstack]
    | none =>
      -- the cell is cleared, and the cell before it is next
      obtain ⟨x', hx', hagain⟩ := hV.again (fill b r) (blanks b)[r.length] e
      simp only [Bool.false_eq_true, if_false]
      rw [update_fill_dot _ hr, ← update_fill e hr', hagain]
      exact ih hx' hr'

/-- The state before a round, with the digits `r` written. No blank is left before the position. -/
structure Rel (b : Board) (s : State) (r : List ℕ) : Prop where
  length_le : r.length ≤ (blanks b).length
  board : s.b = fill b r
  stack : s.s = ((blanks b).take r.length).reverse
  mem_grid : s.pos ∈ grid
  index_le : ∀ q ∈ (blanks b).drop r.length, index s.pos ≤ index q

/-- After `advance` the vector is not empty and no longer than one more than before. -/
lemma advance_length {d : ℕ} {ok : List ℕ → Bool} {r' : List ℕ}
    (h : advance d ok r.reverse a = some r') : r' ≠ [] ∧ r'.length ≤ r.length + 1 := by
  induction r using List.reverseRecOn generalizing a with
  | nil =>
    rw [List.reverse_nil, advance, Option.map_eq_some_iff] at h
    obtain ⟨c, -, rfl⟩ := h
    simp
  | append_singleton r e ih =>
    have hrev : (r ++ [e]).reverse = e :: r.reverse := by simp
    rw [hrev, advance] at h
    split at h
    · obtain rfl := Option.some.inj h
      simp
    · obtain ⟨hne, hlen⟩ := ih h
      refine ⟨hne, ?_⟩
      rw [List.length_append]
      omega

lemma rel_written (hne : r ≠ []) (hlen : r.length ≤ (blanks b).length) :
    Rel b ⟨(written b r).b, (written b r).pos, (written b r).pos :: (written b r).s⟩ r := by
  obtain ⟨q, c, rfl⟩ : ∃ q c, r = q ++ [c] :=
    ⟨r.dropLast, r.getLast hne, (List.dropLast_append_getLast hne).symm⟩
  have hq : q.length < (blanks b).length := by
    rw [List.length_append] at hlen
    exact hlen
  have hlen' : (q ++ [c]).length = q.length + 1 := by simp
  rw [written_concat c hq]
  refine ⟨hlen, rfl, ?_, mem_grid_of_lt hq, fun p hp => ?_⟩
  · rw [hlen', take_concat_reverse hq]
  · rw [hlen'] at hp
    obtain ⟨i, hi, rfl⟩ := List.mem_drop_iff_getElem.mp hp
    exact Nat.le_of_lt (List.pairwise_iff_getElem.mp (blanks_sorted b) _ _ hq _ (by omega))

lemma Refines.body_rel {V : Version} {holds : ℕ → ℕ → Prop} (hV : Refines V holds) {s : State}
    (h : Rel b s r) :
    Round.Rel (Rel b) (fun o o' => o = o'.map (fill b)) (V.body s)
      (round 9 (blanks b).length (accept b) r) := by
  have hnext : V.nextpos s.b s.pos = ((blanks b).drop r.length).head? := by
    rw [← blanks_fill, ← h.board]
    refine hV.nextpos s.b s.pos h.mem_grid fun q hq => ?_
    rw [h.board, blanks_fill] at hq
    exact h.index_le q hq
  rw [Version.body, hnext, List.head?_drop, Backtrack.round]
  by_cases hfull : r.length = (blanks b).length
  · rw [if_pos hfull, List.getElem?_eq_none (by omega)]
    exact .leave (congrArg some h.board)
  · have hr : r.length < (blanks b).length := by
      have := h.length_le
      omega
    have hboard : s.b = Function.update (fill b r) (blanks b)[r.length] dot := by
      have hclear := update_fill_dot dot hr
      rw [Function.update_idem] at hclear
      rw [hclear, h.board]
    have hretreat := hV.retreat_eq hV.blank hr
    rw [← hboard, ← h.stack] at hretreat
    rw [if_neg hfull, List.getElem?_eq_getElem hr]
    simp only [hretreat]
    cases hadvance : advance 9 (accept b) r.reverse 0 with
    | none => exact .leave rfl
    | some r' =>
      obtain ⟨hne, hlen⟩ := advance_length hadvance
      exact .again (rel_written hne (by omega))

variable {c : Board} {v w : List ℕ} {i : ℕ}

lemma accept_take (hv : v.length = (blanks b).length) (hi : i < v.length) :
    accept b (v.take (i + 1)) = true ↔
      ∀ q ∈ grid, Peer ((blanks b)[i]) q → fill b (v.take i) q ≠ one + v[i] := by
  have hlen : (v.take i).length = i := by
    rw [List.length_take]
    omega
  have hi' : (v.take i).length < (blanks b).length := by omega
  have haccept := accept_concat (b := b) v[i] hi'
  simp only [hlen] at haccept
  rw [← List.take_append_getElem hi, haccept, legal_iff (mem_grid_of_lt _)]

lemma fill_blank_lt (hv : v.length = (blanks b).length) (hi : i < (blanks b).length) :
    fill b v (blanks b)[i] = one + v[i] := by
  rw [fill_blank v hi, List.getElem?_eq_getElem (by omega), Option.elim_some]

/-- The cells before the blank `i` do not see the digits from `i` on. -/
lemma fill_take {j : ℕ} (v : List ℕ) (hj : j < i) (hi : j < (blanks b).length) :
    fill b (v.take i) (blanks b)[j] = fill b v (blanks b)[j] := by
  rw [fill_blank _ hi, fill_blank _ hi, List.getElem?_take_of_lt hj]

lemma peer_ne_of_accepted (hv : v.length = (blanks b).length) (haccepted : Accepted (accept b) v)
    (hi : i < (blanks b).length) (hq : q ∈ grid) (hpeer : Peer ((blanks b)[i]) q)
    (hsame : fill b (v.take i) q = fill b v q) : fill b v (blanks b)[i] ≠ fill b v q := by
  have hi' : i < v.length := by omega
  have haccept := haccepted (v.take (i + 1)) (List.take_prefix _ _) ?_
  · rw [fill_blank_lt hv hi, ← hsame]
    exact ((accept_take hv hi').mp haccept q hq hpeer).symm
  · intro hnil
    have hlen := congrArg List.length hnil
    rw [List.length_take, List.length_nil] at hlen
    omega

lemma Completion.fill_eq (hc : Completion b c) (v : List ℕ) (hp : p ∈ grid) (hblank : p ∉ blanks b) :
    fill b v p = c p := by
  rw [fill_of_notMem v hblank]
  exact (hc.given p hp fun h => hblank (mem_blanks.mpr ⟨hp, h⟩)).symm

lemma peers_fill (hc : Completion b c) (hv : Solution 9 (blanks b).length (accept b) v)
    (hp : p ∈ grid) (hq : q ∈ grid) (hpeer : Peer p q) : fill b v p ≠ fill b v q := by
  have hlen := hv.digits.length_eq
  by_cases hpb : p ∈ blanks b
  · obtain ⟨i, hi, rfl⟩ := List.getElem_of_mem hpb
    by_cases hqb : q ∈ blanks b
    · obtain ⟨j, hj, rfl⟩ := List.getElem_of_mem hqb
      -- the later of the two blanks has been tested against the other
      rcases Nat.lt_trichotomy i j with hij | rfl | hji
      · exact (peer_ne_of_accepted hlen hv.accepted hj hp hpeer.symm (fill_take v hij hi)).symm
      · exact absurd rfl hpeer.1
      · exact peer_ne_of_accepted hlen hv.accepted hi hq hpeer (fill_take v hji hj)
    · refine peer_ne_of_accepted hlen hv.accepted hi hq hpeer ?_
      rw [hc.fill_eq _ hq hqb, hc.fill_eq _ hq hqb]
  · by_cases hqb : q ∈ blanks b
    · obtain ⟨j, hj, rfl⟩ := List.getElem_of_mem hqb
      refine (peer_ne_of_accepted hlen hv.accepted hj hp hpeer.symm ?_).symm
      rw [hc.fill_eq _ hp hpb, hc.fill_eq _ hp hpb]
    · rw [hc.fill_eq _ hp hpb, hc.fill_eq _ hq hqb]
      exact hc.valid.peers p hp q hq hpeer

lemma completion_fill (hc : Completion b c)
    (hv : Solution 9 (blanks b).length (accept b) v) : Completion b (fill b v) := by
  have hlen := hv.digits.length_eq
  refine ⟨⟨fun p hp => ?_, fun p hp q hq hpeer => peers_fill hc hv hp hq hpeer⟩, fun p hp hdot => ?_⟩
  · by_cases hblank : p ∈ blanks b
    · obtain ⟨i, hi, rfl⟩ := List.getElem_of_mem hblank
      have hlt := hv.digits.lt v[i] (List.getElem_mem (by omega))
      rw [fill_blank_lt hlen hi]
      simp only [one, colon]
      omega
    · rw [hc.fill_eq _ hp hblank]
      exact hc.valid.digit p hp
  · exact fill_of_notMem v fun hblank => hdot (mem_blanks.mp hblank).2

/-- The digits that `c` has in the blanks of `b` -/
def digitsOf (b c : Board) : List ℕ := (blanks b).map fun p => c p - one

lemma fill_digitsOf (hc : Completion b c) (hp : p ∈ grid) : fill b (digitsOf b c) p = c p := by
  by_cases hblank : p ∈ blanks b
  · obtain ⟨i, hi, rfl⟩ := List.getElem_of_mem hblank
    have hone := (hc.valid.digit _ hp).1
    have hlen : (digitsOf b c).length = (blanks b).length := List.length_map _
    rw [fill_blank_lt hlen hi]
    simp only [digitsOf, List.getElem_map]
    omega
  · exact hc.fill_eq _ hp hblank

lemma solution_digitsOf (hc : Completion b c) :
    Solution 9 (blanks b).length (accept b) (digitsOf b c) := by
  have hlen : (digitsOf b c).length = (blanks b).length := List.length_map _
  refine ⟨⟨hlen, fun a ha => ?_⟩, fun r hr hne => ?_⟩
  · obtain ⟨p, hp, rfl⟩ := List.mem_map.mp ha
    have hdigit := hc.valid.digit p (mem_blanks.mp hp).1
    simp only [one, colon] at hdigit ⊢
    omega
  · obtain ⟨i, hi⟩ : ∃ i, r.length = i + 1 := by
      have := List.length_pos_iff.mpr hne
      exact ⟨r.length - 1, by omega⟩
    have hlt : i < (digitsOf b c).length := by
      have := hr.length_le
      omega
    rw [List.prefix_iff_eq_take.mp hr, hi, accept_take hlen hlt]
    intro q hq hpeer
    have hi' : i < (blanks b).length := by omega
    rw [← fill_blank_lt hlen hi', fill_digitsOf hc (mem_grid_of_lt hi')]
    by_cases hblank : q ∈ blanks b
    · obtain ⟨j, hj, rfl⟩ := List.getElem_of_mem hblank
      by_cases hji : j < i
      · rw [fill_take _ hji hj, fill_digitsOf hc hq]
        exact (hc.valid.peers _ (mem_grid_of_lt hi') _ hq hpeer).symm
      · -- a later blank is still empty
        have hone := (hc.valid.digit _ (mem_grid_of_lt hi')).1
        rw [fill_blank _ hj, List.getElem?_eq_none (by rw [List.length_take]; omega)]
        simp only [Option.elim_none, one, dot] at hone ⊢
        omega
    · rw [hc.fill_eq _ hq hblank]
      exact (hc.valid.peers _ (mem_grid_of_lt hi') _ hq hpeer).symm

/-- The board row by row -/
def cells (c : Board) : List ℕ := grid.map c

/-- The blanks stand in the order of the cells. -/
lemma lt_of_grid_lt {i j k l : ℕ} (hi : i < (blanks b).length) (hl : l < (blanks b).length)
    (hj : j < grid.length) (hk : k < grid.length) (hjl : grid[j] = (blanks b)[l])
    (hki : grid[k] = (blanks b)[i]) (hjk : j < k) : l < i := by
  by_contra hle
  have hgrid := List.pairwise_iff_getElem.mp grid_sorted j k hj hk hjk
  rw [hki, hjl] at hgrid
  rcases Nat.lt_or_ge i l with hil | hil
  · have := List.pairwise_iff_getElem.mp (blanks_sorted b) i l hi hl hil
    omega
  · obtain rfl : i = l := by omega
    omega

/-- The first blank with another digit is the first cell with another digit. -/
lemma cells_fill_le (hv : v.length = (blanks b).length) (hw : w.length = (blanks b).length)
    (h : v ≤ w) : cells (fill b v) ≤ cells (fill b w) := by
  rcases h.lt_or_eq with hlt | rfl
  swap
  · exact le_rfl
  rcases List.lt_iff_exists.mp hlt with ⟨-, hlen⟩ | ⟨i, hi, hi', hbefore, hlt⟩
  · omega
  · refine le_of_lt (List.lt_iff_exists.mpr ?_)
    have hib : i < (blanks b).length := by omega
    obtain ⟨k, hk, hki⟩ := List.getElem_of_mem (mem_grid_of_lt hib)
    have hk' : ∀ c : Board, k < (cells c).length := fun c => by simpa [cells] using hk
    refine .inr ⟨k, hk' _, hk' _, fun j hj => ?_, ?_⟩
    · simp only [cells, List.getElem_map]
      by_cases hblank : grid[j] ∈ blanks b
      · obtain ⟨l, hl, hlj⟩ := List.getElem_of_mem hblank
        have hli : l < i := lt_of_grid_lt hib hl (by omega) hk hlj.symm hki hj
        rw [← hlj, fill_blank_lt hv hl, fill_blank_lt hw hl, hbefore l hli]
      · rw [fill_of_notMem _ hblank, fill_of_notMem _ hblank]
    · simp only [cells, List.getElem_map, hki]
      rw [fill_blank_lt hv hib, fill_blank_lt hw hib]
      omega

/-- The search from a board that has a completion. -/
lemma Refines.solveSudoku_eq {V : Version} {holds : ℕ → ℕ → Prop} (hV : Refines V holds) {fuel : ℕ}
    (h : loop (round 9 (blanks b).length (accept b)) fuel [] = some (some v)) :
    V.solveSudoku fuel b = some (some (fill b v)) := by
  have hcorner : ((0, 0) : Pos) ∈ grid := mem_grid.mpr ⟨by decide, by decide⟩
  have hstart : Rel b ⟨b, (0, 0), []⟩ [] :=
    ⟨Nat.zero_le _, (fill_nil b).symm, rfl, hcorner, fun q _ => Nat.zero_le _⟩
  obtain ⟨o, hloop, rfl⟩ := loop_simulation (fun _ _ => hV.body_rel) hstart h
  exact hloop

/-- Both solvers end with the first of the completions. -/
theorem solveSudoku_first (b : Board) (hb : ∃ c, Completion b c) :
    ∃ c, Completion b c ∧ (∀ c', Completion b c' → cells c ≤ cells c') ∧
      ∀ fuel, (9 ^ (blanks b).length + 1) * ((blanks b).length + 1) ≤ fuel →
        solveSudoku fuel b = some (some c) ∧ V2.solveSudoku fuel b = some (some c) := by
  obtain ⟨c, hc⟩ := hb
  obtain ⟨v, hv, hfirst, hsearch⟩ := search_total ⟨_, solution_digitsOf hc⟩
  refine ⟨fill b v, completion_fill hc hv, fun c' hc' => ?_, fun fuel hfuel => ?_⟩
  · have hle := cells_fill_le hv.digits.length_eq (solution_digitsOf hc').digits.length_eq
      (hfirst _ (solution_digitsOf hc'))
    have hcells : cells (fill b (digitsOf b c')) = cells c' :=
      List.map_congr_left fun p hp => fill_digitsOf hc' hp
    rwa [hcells] at hle
  · have hloop := hsearch fuel hfuel
    exact ⟨version_refines.solveSudoku_eq hloop, V2.version_refines.solveSudoku_eq hloop⟩

/-- The board with these digits, 0 for a blank -/
def ofRows (rows : List (List ℕ)) : Board := fun p =>
  match (rows.getD p.1 []).getD p.2 0 with
  | 0 => dot
  | d + 1 => one + d

/-- The board of `main` in `37.cpp` -/
def mainBoard : Board := ofRows
  [[5, 3, 0, 0, 7, 0, 0, 0, 0], [6, 0, 0, 1, 9, 5, 0, 0, 0], [0, 9, 8, 0, 0, 0, 0, 6, 0],
    [8, 0, 0, 0, 6, 0, 0, 0, 3], [4, 0, 0, 8, 0, 3, 0, 0, 1], [7, 0, 0, 0, 2, 0, 0, 0, 6],
    [0, 6, 0, 0, 0, 0, 2, 8, 0], [0, 0, 0, 4, 1, 9, 0, 0, 5], [0, 0, 0, 0, 8, 0, 0, 7, 9]]

def mainSolved : Board := ofRows
  [[5, 3, 4, 6, 7, 8, 9, 1, 2], [6, 7, 2, 1, 9, 5, 3, 4, 8], [1, 9, 8, 3, 4, 2, 5, 6, 7],
    [8, 5, 9, 7, 6, 1, 4, 2, 3], [4, 2, 6, 8, 5, 3, 7, 9, 1], [7, 1, 3, 9, 2, 4, 8, 5, 6],
    [9, 6, 1, 5, 3, 7, 2, 8, 4], [2, 8, 7, 4, 1, 9, 6, 3, 5], [3, 4, 5, 2, 8, 6, 1, 7, 9]]

lemma completion_mainSolved : Completion mainBoard mainSolved := by
  have hlegal : ∀ p ∈ grid, legal mainSolved p (mainSolved p) = true := by decide +kernel
  refine ⟨⟨by decide +kernel, fun p hp q hq hpeer => ?_⟩, by decide +kernel⟩
  exact ((legal_iff hp).mp (hlegal p hp) q hq hpeer).symm

theorem solveSudoku_first_mainBoard :
    ∃ c, Completion mainBoard c ∧ (∀ c', Completion mainBoard c' → cells c ≤ cells c') ∧
      ∀ fuel, (9 ^ (blanks mainBoard).length + 1) * ((blanks mainBoard).length + 1) ≤ fuel →
        solveSudoku fuel mainBoard = some (some c) ∧ V2.solveSudoku fuel mainBoard = some (some c) :=
  solveSudoku_first mainBoard ⟨mainSolved, completion_mainSolved⟩

end CodeC.Leetcode37
