import Mathlib.Algebra.Group.Nat.Defs
import Mathlib.Data.List.Infix
import Mathlib.Data.List.Lex
import Mathlib.Tactic.Ring

/-!
# Vectors of digits as numbers

A vector of digits below `d` is a number in base `d`, and the lexicographic order of the vectors
of one length is the order of their numbers. A search that goes through the vectors from front to
back has dealt with everything below a number; a beginning `r` of a vector stands for `low d n r`,
the least number of `n` digits that begins with it.
-/

namespace CodeC.Library

/-- The number with these digits, the most significant one first. -/
def value (d : ℕ) : List ℕ → ℕ
  | [] => 0
  | a :: r => a * d ^ r.length + value d r

/-- The least number of `n` digits that begins with `r`. -/
def low (d n : ℕ) (r : List ℕ) : ℕ := value d r * d ^ (n - r.length)

/-- The vectors of `n` digits. -/
structure Digits (d n : ℕ) (v : List ℕ) : Prop where
  length_eq : v.length = n
  lt : ∀ a ∈ v, a < d

variable {d n a : ℕ} {r v w : List ℕ}

lemma value_append (r t : List ℕ) : value d (r ++ t) = value d r * d ^ t.length + value d t := by
  induction r with
  | nil => simp [value]
  | cons a r ih =>
    rw [List.cons_append, value, value, ih, List.length_append, pow_add]
    ring

lemma value_concat (r : List ℕ) (a : ℕ) : value d (r ++ [a]) = value d r * d + a := by
  rw [value_append]
  simp [value]

lemma concat_lt (hr : ∀ b ∈ r, b < d) (ha : a < d) : ∀ b ∈ r ++ [a], b < d := by
  intro b hb
  rcases List.mem_append.mp hb with hb | hb
  · exact hr b hb
  · rw [List.mem_singleton.mp hb]
    exact ha

lemma mul_add_le_of_lt {b : ℕ} (h : a < b) (x : ℕ) : a * x + x ≤ b * x := by
  rw [← Nat.succ_mul]
  exact Nat.mul_le_mul_right x h

lemma value_lt (hr : ∀ a ∈ r, a < d) : value d r < d ^ r.length := by
  induction r with
  | nil => simp [value]
  | cons a r ih =>
    have hrest := ih fun b hb => hr b (by simp [hb])
    have hmul := mul_add_le_of_lt (hr a (by simp)) (d ^ r.length)
    rw [value, List.length_cons, pow_succ, Nat.mul_comm _ d]
    omega

/-- The order of the vectors is the order of the numbers. -/
theorem lt_iff_value_lt (hv : Digits d n v) (hw : Digits d n w) :
    v < w ↔ value d v < value d w := by
  induction v generalizing n w with
  | nil =>
    obtain rfl : w = [] := List.eq_nil_of_length_eq_zero (hw.1.trans hv.1.symm)
    simp [value]
  | cons a v ih =>
    cases w with
    | nil => exact absurd (hv.1.trans hw.1.symm) (by simp)
    | cons b w =>
      have hlen : v.length = w.length := Nat.succ.inj (hv.1.trans hw.1.symm)
      have hv' : Digits d v.length v := ⟨rfl, fun c hc => hv.2 c (by simp [hc])⟩
      have hw' : Digits d v.length w := ⟨hlen.symm, fun c hc => hw.2 c (by simp [hc])⟩
      have hvlt := value_lt hv'.2
      have hwlt := value_lt hw'.2
      rw [List.cons_lt_cons_iff, ih hv' hw', value, value, ← hlen]
      rw [← hlen] at hwlt
      rcases Nat.lt_trichotomy a b with hab | rfl | hab
      · have hmul := mul_add_le_of_lt hab (d ^ v.length)
        exact iff_of_true (.inl hab) (by omega)
      · simp
      · have hmul := mul_add_le_of_lt hab (d ^ v.length)
        exact iff_of_false (by omega) (by omega)

/-- A vector of `k` digits has `d` continuations by one digit. -/
lemma pow_sub_eq_mul (d : ℕ) {k n : ℕ} (hk : k < n) : d ^ (n - k) = d * d ^ (n - k - 1) := by
  rw [← pow_succ']
  congr 1
  omega

lemma low_nil : low d n [] = 0 := by simp [low, value]

lemma low_full (h : v.length = n) : low d n v = value d v := by simp [low, h]

/-- One more digit. -/
lemma low_concat (a : ℕ) (hr : r.length < n) :
    low d n (r ++ [a]) = low d n r + a * d ^ (n - r.length - 1) := by
  obtain ⟨k, rfl⟩ : ∃ k, n = r.length + k + 1 := ⟨n - r.length - 1, by omega⟩
  have h1 : r.length + k + 1 - (r ++ [a]).length = k := by
    rw [List.length_append, List.length_singleton]
    omega
  have h2 : r.length + k + 1 - r.length = k + 1 := by omega
  rw [low, low, h1, h2, value_concat, Nat.add_sub_cancel, pow_succ]
  ring

/-- The vectors that begin with `r` are the numbers from `low d n r` on up to the next beginning of
the same length. -/
theorem prefix_iff_low (hv : Digits d n v) (hr : ∀ a ∈ r, a < d) (hlen : r.length ≤ n) :
    r <+: v ↔ low d n r ≤ value d v ∧ value d v < low d n r + d ^ (n - r.length) := by
  obtain ⟨u, t, rfl, hu⟩ : ∃ u t, v = u ++ t ∧ u.length = r.length :=
    ⟨v.take r.length, v.drop r.length, (List.take_append_drop _ _).symm, by
      rw [List.length_take, hv.1]
      omega⟩
  have ht : n - r.length = t.length := by
    have := hv.1
    rw [List.length_append] at this
    omega
  have htlt : value d t < d ^ t.length := value_lt fun a ha => hv.2 a (by simp [ha])
  rw [low, ht, value_append]
  constructor
  · intro hpre
    obtain rfl : r = u := by
      have := List.prefix_of_prefix_length_le hpre (List.prefix_append u t) (by omega)
      exact this.eq_of_length hu.symm
    omega
  · rintro ⟨hlow, hhigh⟩
    have hsame : ¬value d u < value d r ∧ ¬value d r < value d u := by
      constructor
      · intro hlt
        have hmul := mul_add_le_of_lt hlt (d ^ t.length)
        omega
      · intro hlt
        have hmul := mul_add_le_of_lt hlt (d ^ t.length)
        omega
    have hu' : Digits d r.length u := ⟨hu, fun a ha => hv.2 a (by simp [ha])⟩
    rw [← lt_iff_value_lt hu' ⟨rfl, hr⟩, ← lt_iff_value_lt ⟨rfl, hr⟩ hu'] at hsame
    have heq : r = u := le_antisymm (not_lt.mp hsame.1) (not_lt.mp hsame.2)
    rw [heq]
    exact List.prefix_append u t

lemma low_add_le (hr : ∀ a ∈ r, a < d) (hlen : r.length ≤ n) :
    low d n r + d ^ (n - r.length) ≤ d ^ n := by
  have hmul := mul_add_le_of_lt (value_lt hr) (d ^ (n - r.length))
  rwa [← pow_add, Nat.add_sub_cancel' hlen] at hmul

/-- `r` with zeros up to length `n` -/
def pad (n : ℕ) (r : List ℕ) : List ℕ := r ++ List.replicate (n - r.length) 0

lemma low_eq_value_pad (d : ℕ) (r : List ℕ) : low d n r = value d (pad n r) := by
  have hzeros : ∀ k, value d (List.replicate k 0) = 0 := by
    intro k
    induction k with
    | zero => rfl
    | succ k ih => simp [List.replicate_succ, value, ih]
  rw [low, pad, value_append, List.length_replicate, hzeros, Nat.add_zero]

lemma length_pad (hlen : r.length ≤ n) : (pad n r).length = n := by
  rw [pad, List.length_append, List.length_replicate]
  omega

lemma digits_pad (hr : ∀ a ∈ r, a < d) (hd : 0 < d) (hlen : r.length ≤ n) :
    Digits d n (pad n r) := by
  refine ⟨length_pad hlen, fun a ha => ?_⟩
  rcases List.mem_append.mp ha with ha | ha
  · exact hr a ha
  · rw [List.eq_of_mem_replicate ha]
    exact hd

/-- A longer beginning lies between a shorter one and the next of the same length. -/
lemma low_of_prefix {q : List ℕ} (hq : ∀ a ∈ q, a < d) (hd : 0 < d) (hlen : q.length ≤ n)
    (hr : r <+: q) : low d n r ≤ low d n q ∧ low d n q < low d n r + d ^ (n - r.length) := by
  rw [low_eq_value_pad d q]
  refine (prefix_iff_low (digits_pad hq hd hlen) ?_ ?_).mp ?_
  · exact fun a ha => hq a (hr.mem ha)
  · exact Nat.le_trans hr.length_le hlen
  · exact hr.trans (List.prefix_append _ _)

/-- A pair that falls when the number rises, or stays and the vector gets longer. -/
lemma variant_lt {b x y i j : ℕ} (hx : x < b) (h : x < y ∨ x ≤ y ∧ j < i ∧ j < n) :
    (b - y) * (n + 1) + (n - i) < (b - x) * (n + 1) + (n - j) := by
  rcases h with hxy | ⟨hxy, hij, hjn⟩
  · have hmul := mul_add_le_of_lt (show b - y < b - x by omega) (n + 1)
    omega
  · have hmul := Nat.mul_le_mul_right (n + 1) (show b - y ≤ b - x by omega)
    omega

/-- The solutions below `x`, in order. -/
structure Enumerates (d : ℕ) (Sol : List ℕ → Prop) (x : ℕ) (out : List (List ℕ)) : Prop where
  sorted : out.Pairwise (· < ·)
  mem_iff : ∀ v, v ∈ out ↔ Sol v ∧ value d v < x

section enumerates

variable {Sol : List ℕ → Prop} {x y : ℕ} {out : List (List ℕ)}

lemma enumerates_nil : Enumerates d Sol 0 [] := ⟨List.Pairwise.nil, by simp⟩

/-- Nothing lies between `x` and `y`. -/
lemma Enumerates.skip (h : Enumerates d Sol x out) (hxy : x ≤ y)
    (hnone : ∀ v, Sol v → x ≤ value d v → y ≤ value d v) : Enumerates d Sol y out := by
  refine ⟨h.sorted, fun v => ?_⟩
  rw [h.mem_iff]
  constructor
  · exact fun hv => ⟨hv.1, by omega⟩
  · intro hv
    refine ⟨hv.1, ?_⟩
    by_contra hx
    have hy := hnone v hv.1 (by omega)
    omega

/-- The solution at `x` comes next. -/
lemma Enumerates.concat (hSol : ∀ v, Sol v → Digits d n v) (h : Enumerates d Sol x out)
    (hv : Sol v) (hx : value d v = x) : Enumerates d Sol (x + 1) (out ++ [v]) := by
  constructor
  · rw [List.pairwise_append]
    refine ⟨h.sorted, List.pairwise_singleton _ _, fun w hw u hu => ?_⟩
    obtain rfl : u = v := by simpa using hu
    obtain ⟨hw, hlt⟩ := (h.mem_iff w).mp hw
    rw [lt_iff_value_lt (hSol w hw) (hSol u hv), hx]
    exact hlt
  · intro w
    rw [List.mem_append, List.mem_singleton, h.mem_iff]
    constructor
    · rintro (⟨hw, hlt⟩ | rfl)
      · exact ⟨hw, by omega⟩
      · exact ⟨hv, by omega⟩
    · rintro ⟨hw, hlt⟩
      rcases Nat.lt_succ_iff_lt_or_eq.mp hlt with hlt | heq
      · exact .inl ⟨hw, hlt⟩
      · refine .inr (le_antisymm (not_lt.mp ?_) (not_lt.mp ?_))
        · rw [lt_iff_value_lt (hSol v hv) (hSol w hw)]
          omega
        · rw [lt_iff_value_lt (hSol w hw) (hSol v hv)]
          omega

lemma Enumerates.mem_iff_of_le (hSol : ∀ v, Sol v → Digits d n v) (h : Enumerates d Sol x out)
    (hx : d ^ n ≤ x) (v : List ℕ) : v ∈ out ↔ Sol v := by
  rw [h.mem_iff]
  refine and_iff_left_of_imp fun hv => ?_
  have hlt := value_lt (hSol v hv).lt
  rw [(hSol v hv).length_eq] at hlt
  omega

end enumerates

end CodeC.Library
