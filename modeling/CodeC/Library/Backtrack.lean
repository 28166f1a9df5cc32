import CodeC.Library.Digits
import CodeC.Library.Loop

/-!
# Backtracking over vectors of digits

The search extends a vector by the first digit that a test accepts. When no digit is left it takes
the last one back and tries the digits after it. As the vectors rise as numbers, the search ends
with the least vector all beginnings of which are accepted.
-/

namespace CodeC.Library.Backtrack

/-- The first digit from `a` on that is accepted after `r` -/
def pick (d : ℕ) (ok : List ℕ → Bool) (r : List ℕ) (a : ℕ) : Option ℕ :=
  (List.range' a (d - a)).find? fun c => ok (r ++ [c])

/-- The next vector, from a vector that is given from the back to the front: a digit from `a` on
is added, or the last digit of the vector goes up. -/
def advance (d : ℕ) (ok : List ℕ → Bool) : List ℕ → ℕ → Option (List ℕ)
  | [], a => (pick d ok [] a).map fun c => [c]
  | b :: r, a =>
    match pick d ok (b :: r).reverse a with
    | some c => some ((b :: r).reverse ++ [c])
    | none => advance d ok r (b + 1)

/-- A round of the search for a vector of `n` digits -/
def round (d n : ℕ) (ok : List ℕ → Bool) (r : List ℕ) : Round (List ℕ) (Option (List ℕ)) :=
  if r.length = n then .leave (some r)
  else
    match advance d ok r.reverse 0 with
    | none => .leave none
    | some r => .again r

/-- All beginnings pass the test. -/
def Accepted (ok : List ℕ → Bool) (r : List ℕ) : Prop := ∀ q, q <+: r → q ≠ [] → ok q = true

structure Solution (d n : ℕ) (ok : List ℕ → Bool) (v : List ℕ) : Prop where
  digits : Digits d n v
  accepted : Accepted ok v

/-- The beginning of a vector, as the search builds it. -/
structure Beginning (d n : ℕ) (ok : List ℕ → Bool) (r : List ℕ) : Prop where
  lt : ∀ a ∈ r, a < d
  length_le : r.length ≤ n
  accepted : Accepted ok r

/-- No solution lies below `x`. -/
def Free (d n : ℕ) (ok : List ℕ → Bool) (x : ℕ) : Prop := ∀ v, Solution d n ok v → x ≤ value d v

section lemmas

variable {d n a c : ℕ} {ok : List ℕ → Bool} {r : List ℕ}

lemma accepted_nil : Accepted ok [] := fun _ hq hne => absurd (List.prefix_nil.mp hq) hne

lemma Accepted.concat (h : Accepted ok r) (hc : ok (r ++ [c]) = true) : Accepted ok (r ++ [c]) := by
  intro q hq hne
  rcases List.prefix_concat_iff.mp hq with rfl | hq
  · exact hc
  · exact h q hq hne

lemma Beginning.concat (h : Beginning d n ok r) (hlen : r.length < n) (hlt : c < d)
    (hc : ok (r ++ [c]) = true) : Beginning d n ok (r ++ [c]) := by
  refine ⟨concat_lt h.lt hlt, ?_, h.accepted.concat hc⟩
  rw [List.length_append]
  exact hlen

lemma Beginning.of_concat (h : Beginning d n ok (r ++ [c])) :
    Beginning d n ok r ∧ r.length < n ∧ c < d := by
  have hlen := h.length_le
  rw [List.length_append, List.length_singleton] at hlen
  refine ⟨⟨fun a ha => h.lt a (List.mem_append_left _ ha), by omega, fun q hq hne => ?_⟩, hlen,
    h.lt c (by simp)⟩
  exact h.accepted q (hq.trans (List.prefix_append r [c])) hne

lemma pick_eq_some (h : pick d ok r a = some c) :
    (a ≤ c ∧ c < d) ∧ ok (r ++ [c]) = true ∧ ∀ e, a ≤ e → e < c → ok (r ++ [e]) = false := by
  obtain ⟨hok, hmem, hfirst⟩ := List.find?_range'_eq_some.mp h
  rw [List.mem_range'_1] at hmem
  refine ⟨by omega, hok, fun e hae hec => ?_⟩
  have hnot := hfirst e hae hec
  rwa [Bool.not_eq_true'] at hnot

lemma pick_eq_none (h : pick d ok r a = none) {e : ℕ} (hae : a ≤ e) (hed : e < d) :
    ok (r ++ [e]) = false := by
  have hnot := List.find?_eq_none.mp h e (by rw [List.mem_range'_1]; omega)
  rwa [Bool.not_eq_true] at hnot

/-- The solutions above a beginning that is not accepted. -/
lemma Free.skip (hr : Beginning d n ok r) (hlen : r.length < n) (hc : c ≤ d) (hac : a ≤ c)
    (hfree : Free d n ok (low d n r + a * d ^ (n - r.length - 1)))
    (hbad : ∀ e, a ≤ e → e < c → ok (r ++ [e]) = false) :
    Free d n ok (low d n r + c * d ^ (n - r.length - 1)) := by
  induction c, hac using Nat.le_induction with
  | base => exact hfree
  | succ e hae ih =>
    have hfree' := ih (by omega) fun e' hae' he' => hbad e' hae' (by omega)
    intro v hv
    have hge := hfree' v hv
    rw [← low_concat e hlen] at hge
    rw [Nat.add_mul, Nat.one_mul, ← Nat.add_assoc, ← low_concat e hlen]
    by_contra hlt
    have hlt' : ∀ b ∈ r ++ [e], b < d := concat_lt hr.lt hc
    have hlen' : (r ++ [e]).length = r.length + 1 := by rw [List.length_append, List.length_singleton]
    have hpre : r ++ [e] <+: v := by
      refine (prefix_iff_low hv.digits hlt' (by omega)).mpr ⟨hge, ?_⟩
      rw [hlen', ← Nat.sub_sub]
      omega
    have hok := hv.accepted _ hpre (by simp)
    rw [hbad e hae (Nat.lt_succ_self e)] at hok
    cases hok

/-- What `advance` comes to from `r`, when no solution lies below `x`. -/
inductive Advance (d n : ℕ) (ok : List ℕ → Bool) (r : List ℕ) (x : ℕ) : Option (List ℕ) → Prop
  | none (hfree : Free d n ok (d ^ n)) : Advance d n ok r x none
  | some (r' : List ℕ) (hr' : Beginning d n ok r') (hne : r' ≠ []) (hx : x ≤ low d n r')
      (hfree : Free d n ok (low d n r'))
      (hmore : r'.length = r.length + 1 ∨ low d n r + d ^ (n - r.length) ≤ low d n r') :
      Advance d n ok r x (some r')

lemma advance_pick (hr : Beginning d n ok r) (hlen : r.length < n)
    (hfree : Free d n ok (low d n r + a * d ^ (n - r.length - 1))) (hpick : pick d ok r a = some c) :
    Advance d n ok r (low d n r + a * d ^ (n - r.length - 1)) (some (r ++ [c])) := by
  obtain ⟨⟨hac, hc⟩, hok, hfirst⟩ := pick_eq_some hpick
  refine .some _ (hr.concat hlen hc hok) (by simp) ?_ ?_ (.inl (by simp))
  · rw [low_concat c hlen]
    exact Nat.add_le_add_left (Nat.mul_le_mul_right _ hac) _
  · rw [low_concat c hlen]
    exact hfree.skip hr hlen (Nat.le_of_lt hc) hac hfirst

/-- When no digit is left, the solutions lie behind all vectors that begin with `r`. -/
lemma Free.exhausted (hr : Beginning d n ok r) (hlen : r.length < n) (ha : a ≤ d)
    (hfree : Free d n ok (low d n r + a * d ^ (n - r.length - 1))) (hpick : pick d ok r a = none) :
    Free d n ok (low d n r + d ^ (n - r.length)) := by
  rw [pow_sub_eq_mul d hlen]
  exact hfree.skip hr hlen (Nat.le_refl d) ha fun e hae hed => pick_eq_none hpick hae hed

lemma advance_spec (hr : Beginning d n ok r) (hlen : r.length < n) (ha : a ≤ d)
    (hfree : Free d n ok (low d n r + a * d ^ (n - r.length - 1))) :
    Advance d n ok r (low d n r + a * d ^ (n - r.length - 1)) (advance d ok r.reverse a) := by
  induction r using List.reverseRecOn generalizing a with
  | nil =>
    rw [List.reverse_nil, advance]
    cases hpick : pick d ok [] a with
    | some c => exact advance_pick hr hlen hfree hpick
    | none =>
      have hall := hfree.exhausted hr hlen ha hpick
      rw [low_nil, Nat.zero_add, List.length_nil, Nat.sub_zero] at hall
      exact .none hall
  | append_singleton r b ih =>
    have hrev : (r ++ [b]).reverse = b :: r.reverse := by simp
    have hback : (b :: r.reverse).reverse = r ++ [b] := by simp
    rw [hrev, advance, hback]
    cases hpick : pick d ok (r ++ [b]) a with
    | some c => exact advance_pick hr hlen hfree hpick
    | none =>
      -- the last digit `b` goes up
      obtain ⟨hr', hlen', hb⟩ := hr.of_concat
      have hall := hfree.exhausted hr hlen ha hpick
      have hup : low d n (r ++ [b]) + d ^ (n - (r ++ [b]).length) =
          low d n r + (b + 1) * d ^ (n - r.length - 1) := by
        rw [low_concat b hlen', List.length_append, List.length_singleton, ← Nat.sub_sub,
          Nat.add_mul, Nat.one_mul, Nat.add_assoc]
      have hle : low d n (r ++ [b]) + a * d ^ (n - (r ++ [b]).length - 1) ≤
          low d n (r ++ [b]) + d ^ (n - (r ++ [b]).length) := by
        rw [pow_sub_eq_mul d hlen]
        exact Nat.add_le_add_left (Nat.mul_le_mul_right _ ha) _
      have hnext := ih hr' hlen' hb (hup ▸ hall)
      simp only
      generalize advance d ok r.reverse (b + 1) = o at hnext ⊢
      cases hnext with
      | none hfree' => exact .none hfree'
      | some r' hbegin hne hx hfree' hmore =>
        rw [← hup] at hx
        exact .some r' hbegin hne (Nat.le_trans hle hx) hfree' (.inr hx)

/-- No solution lies below the vector. In every round the vector rises or gets longer. -/
def Inv (d n : ℕ) (ok : List ℕ → Bool) (m : ℕ) (r : List ℕ) : Prop :=
  Beginning d n ok r ∧ Free d n ok (low d n r) ∧
    m = (d ^ n - low d n r) * (n + 1) + (n - r.length)

lemma round_again {m : ℕ} {r' : List ℕ} (hinv : Inv d n ok m r) (h : round d n ok r = .again r') :
    ∃ k, k < m ∧ Inv d n ok k r' := by
  obtain ⟨hr, hfree, rfl⟩ := hinv
  have hlen : r.length < n := by
    by_contra hfull
    have := hr.length_le
    rw [round, if_pos (by omega)] at h
    cases h
  have hadvance := advance_spec (a := 0) hr hlen (Nat.zero_le d) (by simpa using hfree)
  rw [Nat.zero_mul, Nat.add_zero] at hadvance
  rw [round, if_neg (by omega)] at h
  generalize advance d ok r.reverse 0 = o at h hadvance
  cases hadvance with
  | none _ => cases h
  | some r'' hr'' hne hx hfree' hmore =>
    obtain rfl := Round.again.inj h
    obtain ⟨a, ha⟩ := List.exists_mem_of_ne_nil _ hne
    have hd : 0 < d := Nat.lt_of_le_of_lt (Nat.zero_le a) (hr''.lt a ha)
    have hpos : 0 < d ^ (n - r.length) := Nat.pow_pos hd
    have hle := low_add_le hr.lt hr.length_le
    exact ⟨_, variant_lt (by omega) (by omega), hr'', hfree', rfl⟩

lemma round_leave {m : ℕ} {o : Option (List ℕ)} (hsol : ∃ v, Solution d n ok v)
    (hinv : Inv d n ok m r) (h : round d n ok r = .leave o) :
    ∃ v, o = some v ∧ Solution d n ok v ∧ ∀ w, Solution d n ok w → value d v ≤ value d w := by
  obtain ⟨hr, hfree, rfl⟩ := hinv
  by_cases hlen : r.length = n
  · rw [round, if_pos hlen] at h
    rw [low_full hlen] at hfree
    exact ⟨r, (Round.leave.inj h).symm, ⟨⟨hlen, hr.lt⟩, hr.accepted⟩, hfree⟩
  · have := hr.length_le
    have hadvance := advance_spec (a := 0) hr (by omega) (Nat.zero_le d) (by simpa using hfree)
    rw [round, if_neg hlen] at h
    generalize advance d ok r.reverse 0 = o' at h hadvance
    cases hadvance with
    | none hfree' =>
      -- every solution is below `d ^ n`
      obtain ⟨v, hv⟩ := hsol
      have hle := hfree' v hv
      have hlt := value_lt hv.digits.lt
      rw [hv.digits.length_eq] at hlt
      omega
    | some r'' => cases h

/-- The search finds the first solution. -/
theorem search_total (hsol : ∃ v, Solution d n ok v) :
    ∃ v, Solution d n ok v ∧ (∀ w, Solution d n ok w → v ≤ w) ∧
      ∀ fuel, (d ^ n + 1) * (n + 1) ≤ fuel → loop (round d n ok) fuel [] = some (some v) := by
  have hstart : Inv d n ok ((d ^ n - low d n []) * (n + 1) + (n - ([] : List ℕ).length)) [] := by
    refine ⟨⟨by simp, Nat.zero_le n, accepted_nil⟩, fun v _ => ?_, rfl⟩
    rw [low_nil]
    exact Nat.zero_le _
  obtain ⟨o, ⟨v, rfl, hv, hmin⟩, hloop⟩ :=
    loop_total (I := Inv d n ok) (fun _ _ _ => round_again) (fun _ _ _ => round_leave hsol)
      hstart
  refine ⟨v, hv, fun w hw => ?_, fun fuel hfuel => hloop fuel ?_⟩
  · have hle := hmin w hw
    rw [← not_lt, lt_iff_value_lt hw.digits hv.digits]
    omega
  · rw [low_nil, Nat.sub_zero, List.length_nil, Nat.sub_zero]
    rw [Nat.add_mul] at hfuel
    omega

end lemmas

end CodeC.Library.Backtrack
