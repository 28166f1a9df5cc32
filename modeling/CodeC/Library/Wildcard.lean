import Mathlib.Data.List.Basic

/-!
# Patterns with wildcards

A pattern is a list of symbols: letters, `any` for one letter, and `star` for any number of
letters. A pattern without stars has a fixed length and is tested at a position of the text. The
pieces between stars may be placed from left to right, each at the first position where it fits.
-/

namespace CodeC.Library

variable {α : Type}

inductive Sym (α : Type) where
  | lit (a : α)
  | any
  | star
  deriving DecidableEq

/-- The pattern matches the whole text. -/
inductive Matches : List (Sym α) → List α → Prop
  | nil : Matches [] []
  | lit (a : α) {p : List (Sym α)} {t : List α} (h : Matches p t) : Matches (.lit a :: p) (a :: t)
  | any (c : α) {p : List (Sym α)} {t : List α} (h : Matches p t) : Matches (.any :: p) (c :: t)
  | star (u : List α) {p : List (Sym α)} {t : List α} (h : Matches p t) :
      Matches (.star :: p) (u ++ t)

/-- The symbol stands for this one letter. -/
def Sym.Accepts : Sym α → α → Prop
  | .lit a, c => c = a
  | .any, _ => True
  | .star, _ => False

/-- The pattern without stars fits at position `j` of the text. -/
def FitsAt : List (Sym α) → List α → ℕ → Prop
  | [], t, j => j ≤ t.length
  | x :: p, t, j => (∃ c, t[j]? = some c ∧ x.Accepts c) ∧ FitsAt p t (j + 1)

variable {p q : List (Sym α)} {t : List α} {i j : ℕ}

lemma FitsAt.le_length (h : FitsAt p t j) : j + p.length ≤ t.length := by
  induction p generalizing j with
  | nil => exact h
  | cons x p ih =>
    have hle := ih h.2
    rw [List.length_cons]
    omega

lemma fitsAt_append : FitsAt (p ++ q) t j ↔ FitsAt p t j ∧ FitsAt q t (j + p.length) := by
  induction p generalizing j with
  | nil =>
    refine ⟨fun h => ⟨?_, h⟩, fun h => h.2⟩
    have hle := FitsAt.le_length (p := q) h
    exact Nat.le_trans (Nat.le_add_right _ _) hle
  | cons x p ih =>
    rw [List.cons_append, FitsAt, FitsAt, ih, List.length_cons, and_assoc, Nat.add_assoc,
      Nat.add_comm 1]

lemma fitsAt_any : FitsAt (.any :: p) t j ↔ FitsAt p t (j + 1) := by
  refine ⟨fun h => h.2, fun h => ⟨?_, h⟩⟩
  have hle := h.le_length
  exact ⟨t[j], List.getElem?_eq_getElem (by omega), trivial⟩

/-- Every symbol is tested against the letter at its place. -/
lemma fitsAt_iff_getElem? : FitsAt p t j ↔
    j + p.length ≤ t.length ∧ ∀ k x, p[k]? = some x → ∃ c, t[j + k]? = some c ∧ x.Accepts c := by
  induction p generalizing j with
  | nil => simp [FitsAt]
  | cons x p ih =>
    rw [FitsAt, ih, List.length_cons]
    constructor
    · rintro ⟨hx, hlen, hp⟩
      refine ⟨by omega, fun k y hy => ?_⟩
      cases k with
      | zero =>
        obtain rfl : x = y := by simpa using hy
        exact hx
      | succ k =>
        rw [Nat.add_comm k, ← Nat.add_assoc]
        exact hp k y hy
    · rintro ⟨hlen, hp⟩
      refine ⟨hp 0 x rfl, by omega, fun k y hy => ?_⟩
      rw [Nat.add_assoc, Nat.add_comm 1]
      exact hp (k + 1) y hy

lemma fitsAt_lits {l : List α} : FitsAt (l.map .lit) t j ↔ j ≤ t.length ∧ l <+: t.drop j := by
  induction l generalizing j with
  | nil => simp [FitsAt]
  | cons a l ih =>
    rw [List.map_cons, FitsAt, ih]
    rcases Nat.lt_or_ge j t.length with hlt | hge
    · rw [List.drop_eq_getElem_cons hlt, List.getElem?_eq_getElem hlt, List.cons_prefix_cons]
      simp [Sym.Accepts, Nat.le_of_lt hlt, Nat.succ_le_of_lt hlt, eq_comm]
    · rw [List.drop_eq_nil_of_le hge, List.getElem?_eq_none hge]
      simp

/-- A position of the text is a position of each of its ends. -/
lemma fitsAt_drop : FitsAt p (t.drop i) j ∧ i ≤ t.length ↔ FitsAt p t (i + j) ∧ i ≤ t.length := by
  induction p generalizing j with
  | nil =>
    simp only [FitsAt, List.length_drop]
    omega
  | cons x p ih =>
    rw [FitsAt, FitsAt, List.getElem?_drop, and_assoc, ih, and_assoc, Nat.add_assoc]

lemma matches_cons_iff {x : Sym α} (hx : x ≠ .star) {c : α} :
    Matches (x :: p) (c :: t) ↔ x.Accepts c ∧ Matches p t := by
  cases x with
  | lit a =>
    constructor
    · rintro ⟨⟩
      exact ⟨rfl, by assumption⟩
    · rintro ⟨rfl, h⟩
      exact .lit _ h
  | any =>
    constructor
    · rintro ⟨⟩
      exact ⟨trivial, by assumption⟩
    · exact fun h => .any c h.2
  | star => exact absurd rfl hx

lemma matches_nil_iff : Matches [] t ↔ t = [] := by
  constructor
  · rintro ⟨⟩
    rfl
  · rintro rfl
    exact .nil

lemma not_matches_cons_nil {x : Sym α} (hx : x ≠ .star) : ¬Matches (x :: p) [] := by
  intro h
  cases x with
  | lit a => cases h
  | any => cases h
  | star => exact hx rfl

/-- A first piece without stars is tested in place. -/
lemma matches_starless_append (hp : .star ∉ p) (hj : j ≤ t.length) :
    Matches (p ++ q) (t.drop j) ↔ FitsAt p t j ∧ Matches q (t.drop (j + p.length)) := by
  induction p generalizing j with
  | nil => simp [FitsAt, hj]
  | cons x p ih =>
    have hx : x ≠ .star := fun h => hp (by simp [h])
    have hp' : .star ∉ p := fun h => hp (by simp [h])
    rcases Nat.lt_or_ge j t.length with hlt | hge
    · rw [List.drop_eq_getElem_cons hlt, List.cons_append, matches_cons_iff hx,
        ih hp' (Nat.succ_le_of_lt hlt), FitsAt, List.getElem?_eq_getElem hlt, and_assoc,
        List.length_cons, Nat.succ_add_eq_add_succ]
      simp
    · rw [List.drop_eq_nil_of_le hge, FitsAt, List.getElem?_eq_none hge]
      exact iff_of_false (not_matches_cons_nil hx) (by simp)

lemma matches_star_iff (hi : i ≤ t.length) :
    Matches (.star :: p) (t.drop i) ↔ ∃ j, i ≤ j ∧ j ≤ t.length ∧ Matches p (t.drop j) := by
  constructor
  · intro h
    generalize hv : t.drop i = v at h
    cases h with
    | @star u p t' h =>
      have hlen := congrArg List.length hv
      rw [List.length_drop, List.length_append] at hlen
      refine ⟨i + u.length, by omega, by omega, ?_⟩
      rwa [← List.drop_drop, hv, List.drop_left]
  · rintro ⟨j, hij, -, h⟩
    have hsplit : t.drop i = (t.drop i).take (j - i) ++ t.drop j := by
      rw [← Nat.add_sub_of_le hij, ← List.drop_drop, Nat.add_sub_cancel_left, List.take_append_drop]
    rw [hsplit]
    exact .star _ h

/-- The stars of a pattern may take more of the text. -/
lemma matches_star_of_le (hij : i ≤ j) (hj : j ≤ t.length)
    (h : Matches (.star :: p) (t.drop j)) : Matches (.star :: p) (t.drop i) := by
  obtain ⟨k, hjk, hk, hp⟩ := (matches_star_iff hj).mp h
  exact (matches_star_iff (Nat.le_trans hij hj)).mpr ⟨k, Nat.le_trans hij hjk, hk, hp⟩

lemma matches_star_nil : Matches [.star] t := by
  simpa using Matches.star t .nil

lemma matches_star_star : Matches (.star :: .star :: p) t ↔ Matches (.star :: p) t := by
  constructor
  · intro h
    obtain ⟨j, -, hj, h⟩ := (matches_star_iff (i := 0) (Nat.zero_le t.length)).mp h
    exact matches_star_of_le (Nat.zero_le j) hj h
  · exact fun h => Matches.star [] h

/-- The first position from `i` on where the pattern fits. -/
def FirstFit (p : List (Sym α)) (t : List α) (i j : ℕ) : Prop :=
  i ≤ j ∧ FitsAt p t j ∧ ∀ k, i ≤ k → k < j → ¬FitsAt p t k

lemma FirstFit.le {k : ℕ} (h : FirstFit p t i j) (hik : i ≤ k) (hk : FitsAt p t k) : j ≤ k := by
  by_contra hkj
  exact h.2.2 k hik (by omega) hk

/-- What follows a piece at its first place does not move it. -/
lemma FirstFit.append (h : FirstFit p t i j) (hq : FitsAt q t (j + p.length)) :
    FirstFit (p ++ q) t i j := by
  refine ⟨h.1, fitsAt_append.mpr ⟨h.2.1, hq⟩, fun k hik hkj hk => ?_⟩
  exact h.2.2 k hik hkj (fitsAt_append.mp hk).1

lemma matches_star_starless (hp : .star ∉ p) (hi : i ≤ t.length) :
    Matches (.star :: (p ++ q)) (t.drop i) ↔
      ∃ j, i ≤ j ∧ FitsAt p t j ∧ Matches q (t.drop (j + p.length)) := by
  rw [matches_star_iff hi]
  constructor
  · rintro ⟨j, hij, hj, h⟩
    exact ⟨j, hij, (matches_starless_append hp hj).mp h⟩
  · rintro ⟨j, hij, hfit, h⟩
    have hj : j ≤ t.length := Nat.le_trans (Nat.le_add_right _ _) hfit.le_length
    exact ⟨j, hij, hj, (matches_starless_append hp hj).mpr ⟨hfit, h⟩⟩

/-- A piece between stars may be placed where it fits first: a placement further right leaves less
of the text. -/
theorem matches_firstFit (hp : .star ∉ p) (hi : i ≤ t.length) (hj : FirstFit p t i j) :
    Matches (.star :: (p ++ .star :: q)) (t.drop i) ↔
      Matches (.star :: q) (t.drop (j + p.length)) := by
  rw [matches_star_starless hp hi]
  constructor
  · rintro ⟨k, hik, hfit, h⟩
    have hjk := hj.le hik hfit
    exact matches_star_of_le (by omega) hfit.le_length h
  · exact fun h => ⟨j, hj.1, hj.2.1, h⟩

lemma matches_append :
    Matches (p ++ q) t ↔ ∃ u v, t = u ++ v ∧ Matches p u ∧ Matches q v := by
  constructor
  · intro h
    induction p generalizing t with
    | nil => exact ⟨[], t, rfl, .nil, h⟩
    | cons x p ih =>
      cases h with
      | lit a h =>
        obtain ⟨u, v, rfl, hu, hv⟩ := ih h
        exact ⟨a :: u, v, rfl, .lit a hu, hv⟩
      | any c h =>
        obtain ⟨u, v, rfl, hu, hv⟩ := ih h
        exact ⟨c :: u, v, rfl, .any c hu, hv⟩
      | star w h =>
        obtain ⟨u, v, rfl, hu, hv⟩ := ih h
        exact ⟨w ++ u, v, by simp, .star w hu, hv⟩
  · rintro ⟨u, v, rfl, hu, hv⟩
    induction hu with
    | nil => exact hv
    | lit a h ih => exact .lit a ih
    | any c h ih => exact .any c ih
    | star w h ih => simpa using Matches.star w ih

lemma matches_starless_iff (hp : .star ∉ p) :
    Matches p t ↔ t.length = p.length ∧ FitsAt p t 0 := by
  have h := matches_starless_append (q := []) (j := 0) hp (Nat.zero_le t.length)
  simp only [List.append_nil, List.drop_zero, Nat.zero_add] at h
  rw [h, and_comm]
  refine and_congr_left fun hfit => ?_
  have hle := hfit.le_length
  rw [matches_nil_iff, List.drop_eq_nil_iff]
  omega

/-- A last piece without stars is tested at the end of the text. -/
lemma matches_append_starless (hp : .star ∉ p) :
    Matches (q ++ p) t ↔ p.length ≤ t.length ∧ FitsAt p t (t.length - p.length) ∧
      Matches q (t.take (t.length - p.length)) := by
  rw [matches_append]
  constructor
  · rintro ⟨u, v, rfl, hu, hv⟩
    obtain ⟨hlen, hfit⟩ := (matches_starless_iff hp).mp hv
    have hpos : (u ++ v).length - p.length = u.length := by
      rw [List.length_append]
      omega
    rw [hpos, List.take_left]
    refine ⟨by rw [List.length_append]; omega, ?_, hu⟩
    have hdrop := (fitsAt_drop (t := u ++ v) (i := u.length) (p := p) (j := 0)).mp
      ⟨by rwa [List.drop_left], by simp⟩
    exact hdrop.1
  · rintro ⟨hlen, hfit, hq⟩
    refine ⟨_, t.drop (t.length - p.length), (List.take_append_drop _ _).symm, hq, ?_⟩
    rw [matches_starless_iff hp, List.length_drop]
    exact ⟨by omega, (fitsAt_drop.mpr ⟨by simpa using hfit, Nat.sub_le _ _⟩).1⟩

end CodeC.Library
