import CodeC.Proofs.Leetcode44Search

/-!
# The wildcard matchers match

Both versions of `isMatch` take off what stands before the first star and behind the last one,
and place the pieces between the stars from left to right.
-/

namespace CodeC.Leetcode44
open Library

variable {s p : List Char} {ps : List (List Char)} {i : ℕ}

lemma Finds.bounds {e : ℕ} (h : Finds (some e) (pattern p) s i) :
    i + p.length ≤ e ∧ e ≤ s.length := by
  obtain ⟨k, ⟨hik, hfit, -⟩, rfl⟩ := h
  have hle := hfit.le_length
  rw [length_pattern] at hle ⊢
  omega

/-- The search for a piece between two stars decides where the rest of the pattern starts. -/
lemma Finds.between_stars {r : Option ℕ} {q : List (Sym Char)} (h : Finds r (pattern p) s i)
    (hp : '*' ∉ p) (hi : i ≤ s.length) :
    Matches (.star :: (pattern p ++ .star :: q)) (s.drop i) ↔
      ∃ e, r = some e ∧ Matches (.star :: q) (s.drop e) := by
  cases r with
  | none =>
    rw [matches_star_starless (star_not_mem_pattern hp) hi]
    refine iff_of_false ?_ (by simp)
    rintro ⟨k, hik, hfit, -⟩
    exact h k hik hfit
  | some e =>
    obtain ⟨k, hfirst, rfl⟩ := h
    rw [matches_firstFit (star_not_mem_pattern hp) hi hfirst]
    simp

/-- The last element is a star. -/
def EndsInStar (ps : List (List Char)) : Prop := ∀ e ∈ ps.getLast?, e = ['*']

lemma EndsInStar.tail (h : EndsInStar (p :: ps)) : EndsInStar ps := by
  intro e he
  rcases ps with _ | ⟨d, ps⟩
  · simp at he
  · exact h e (by rwa [List.getLast?_cons_cons])

/-- Between stars, a run is followed by a star. -/
lemma EndsInStar.next_star (h : EndsInStar (p :: ps)) (hps : Pieces '*' (p :: ps))
    (hp : p ≠ ['*']) : ∃ qs, ps = ['*'] :: qs := by
  rcases hps.next_delim hp with rfl | hnext
  · exact absurd (h p (by simp)) hp
  · exact hnext

lemma pattern_star_cons (qs : List (List Char)) :
    pattern (['*'] :: qs).flatten = .star :: pattern qs.flatten := by
  rw [List.flatten_cons, pattern_append, pattern_star, List.singleton_append]

lemma pattern_cons (p : List Char) (qs : List (List Char)) :
    pattern (p :: qs).flatten = pattern p ++ pattern qs.flatten := by
  rw [List.flatten_cons, pattern_append]

/-- The first element is compared with the start of the string. -/
lemma matches_front {front : List Char} (ps : List (List Char)) (hfront : '*' ∉ front) :
    Matches (pattern (front :: ps).flatten) s ↔
      FitsAt (pattern front) s 0 ∧ Matches (pattern ps.flatten) (s.drop front.length) := by
  have hsplit := matches_starless_append (q := pattern ps.flatten) (t := s) (j := 0)
    (star_not_mem_pattern hfront) (Nat.zero_le _)
  rwa [List.drop_zero, ← pattern_cons, length_pattern, Nat.zero_add] at hsplit

/-- The end of the string that `stripright` compares with the last element. -/
lemma matches_stripright {back : List Char} {q : List (Sym Char)} (hback : '*' ∉ back)
    (hlen : back.length ≤ s.length) :
    Matches (q ++ pattern back) s ↔
      FitsAt (pattern back) (substr s (s.length - back.length) back.length) 0 ∧
        Matches q (substr s 0 (s.length - back.length)) := by
  have hsub : substr s (s.length - back.length) back.length = s.drop (s.length - back.length) := by
    rw [substr, List.take_of_length_le]
    rw [List.length_drop]
    omega
  rw [matches_append_starless (star_not_mem_pattern hback), length_pattern, hsub, substr,
    List.drop_zero, and_iff_right hlen]
  have hdrop := fitsAt_drop (p := pattern back) (t := s) (i := s.length - back.length) (j := 0)
  simp only [Nat.sub_le, and_true, Nat.add_zero] at hdrop
  rw [hdrop]

/-- What `stripright` leaves, with the elements from the back to the front. -/
def StripsRight (r : Option (List Char × List (List Char))) (s : List Char)
    (ps : List (List Char)) : Prop :=
  match r with
  | none => ¬Matches (pattern ps.reverse.flatten) s
  | some (s', ps') => ps' <:+ ps ∧ (ps' = [] ∨ ∃ qs, ps' = ['*'] :: qs) ∧
      (Matches (pattern ps.reverse.flatten) s ↔ Matches (pattern ps'.reverse.flatten) s')

/-- One round of the loop of `stripright`, where `e` is the result of the comparison with the last
element and `r` what the other rounds leave. -/
lemma StripsRight.round {back : List Char} {e : Option ℕ}
    {r : Option (List Char × List (List Char))} (hback : '*' ∉ back) :
    (back.length ≤ s.length →
      (e ≠ none ↔ FitsAt (pattern back) (substr s (s.length - back.length) back.length) 0)) →
    StripsRight r (substr s 0 (s.length - back.length)) ps →
    StripsRight
      (if back.length > s.length then none else
        match e with
        | none => none
        | some _ => r) s (back :: ps) := by
  intro he h
  have hflat : pattern (back :: ps).reverse.flatten =
      pattern ps.reverse.flatten ++ pattern back := by
    rw [List.reverse_cons, List.flatten_append, List.flatten_singleton, pattern_append]
  split
  · next hlen =>
    intro hmatch
    rw [hflat, matches_append_starless (star_not_mem_pattern hback), length_pattern] at hmatch
    exact absurd hmatch.1 (by omega)
  · next hlen =>
    have hle : back.length ≤ s.length := by omega
    have hiff : Matches (pattern (back :: ps).reverse.flatten) s ↔ e ≠ none ∧
        Matches (pattern ps.reverse.flatten) (substr s 0 (s.length - back.length)) := by
      rw [hflat, matches_stripright hback hle, he hle]
    cases e with
    | none => exact fun hmatch => (hiff.mp hmatch).1 rfl
    | some e =>
      rw [and_iff_right (by simp)] at hiff
      cases r with
      | none => exact fun hmatch => h (hiff.mp hmatch)
      | some r => exact ⟨h.1.trans (List.suffix_cons _ _), h.2.1, hiff.trans h.2.2⟩

lemma stripsRight_star (s : List Char) (qs : List (List Char)) :
    StripsRight (some (s, ['*'] :: qs)) s (['*'] :: qs) :=
  ⟨List.suffix_refl _, .inr ⟨qs, rfl⟩, Iff.rfl⟩

lemma endsInStar_reverse (qs : List (List Char)) : EndsInStar (['*'] :: qs).reverse := by
  intro e he
  simpa using he.symm

/-- What is left of pieces that begin with a star begins with it. -/
lemma starts_with_star {r : List Char} {qs : List (List Char)}
    (hps : ps = [] ∨ ∃ qs, ps = ['*'] :: qs)
    (hsuffix : r :: qs <:+ ps.reverse) : ∃ qs', (r :: qs).reverse = ['*'] :: qs' := by
  have hpre : (r :: qs).reverse <+: ps := by
    simpa using List.reverse_prefix.mpr hsuffix
  rcases hps with rfl | ⟨ps, rfl⟩
  · simp at hpre
  · cases hrev : (r :: qs).reverse with
    | nil => simp at hrev
    | cons e es =>
      rw [hrev, List.cons_prefix_cons] at hpre
      exact ⟨es, by rw [hpre.1]⟩

/-- Pieces that begin with a star: another star in front changes nothing. -/
lemma matches_star_pieces (qs : List (List Char)) (t : List Char) :
    Matches (.star :: pattern (['*'] :: qs).flatten) t ↔
      Matches (pattern (['*'] :: qs).flatten) t := by
  rw [pattern_star_cons, matches_star_star]

/-- A round of the loop of `isMatch` on a piece between two stars, where `f` is the loop over the
elements from the second star on. -/
lemma Finds.loop_iff {r : Option ℕ} {qs : List (List Char)} {f : ℕ → Bool} :
    Finds r (pattern p) s i → '*' ∉ p → i ≤ s.length →
    (∀ e, e ≤ s.length →
      (f e = true ↔ Matches (.star :: pattern (['*'] :: qs).flatten) (s.drop e))) →
    ((if i + p.length > s.length then false else
        match r with
        | none => false
        | some e => f e) = true ↔
      Matches (.star :: pattern (p :: ['*'] :: qs).flatten) (s.drop i)) := by
  intro h hp hi hf
  rw [pattern_cons, pattern_star_cons, h.between_stars hp hi]
  cases r with
  | none => simp
  | some e =>
    have hbounds := h.bounds
    have hrest := hf e hbounds.2
    rw [matches_star_pieces, pattern_star_cons] at hrest
    rw [if_neg (by omega)]
    simpa using hrest

/-! ## `44-2.cpp` -/

namespace V2

lemma isMatchLoop_iff (hps : Pieces '*' ps) (hends : EndsInStar ps) (hi : i ≤ s.length) :
    isMatchLoop s ps i = true ↔ Matches (.star :: pattern ps.flatten) (s.drop i) := by
  induction ps generalizing i with
  | nil => exact iff_of_true rfl matches_star_nil
  | cons p ps ih =>
    rw [isMatchLoop]
    by_cases hp : p = ['*']
    · rw [if_pos hp, ih hps.tail hends.tail hi, hp, matches_star_pieces, pattern_star_cons]
    · obtain ⟨qs, rfl⟩ := hends.next_star hps hp
      have hstar := (hps.run hp).2
      rw [if_neg hp]
      exact (matchFrom_finds hstar).loop_iff hstar hi fun e he => ih hps.tail hends.tail he

/-- What `stripleft` leaves. -/
def StripsLeft (r : Option (List Char × List (List Char))) (s : List Char)
    (ps : List (List Char)) : Prop :=
  match r with
  | none => ¬Matches (pattern ps.flatten) s
  | some (s', ps') => ps' <:+ ps ∧ (ps' = [] ∨ ∃ qs, ps' = ['*'] :: qs) ∧
      (Matches (pattern ps.flatten) s ↔ Matches (pattern ps'.flatten) s')

lemma stripleft_strips (hps : Pieces '*' ps) : StripsLeft (stripleft s ps) s ps := by
  induction ps generalizing s with
  | nil =>
    rw [stripleft]
    split
    · next hs => exact ⟨List.suffix_refl _, .inl rfl, Iff.rfl⟩
    · next hs => exact mt matches_nil_iff.mp hs
  | cons front ps ih =>
    rw [stripleft]
    by_cases hfront : front = ['*']
    · rw [if_pos hfront, hfront]
      exact ⟨List.suffix_refl _, .inr ⟨ps, rfl⟩, Iff.rfl⟩
    · have hstar := (hps.run hfront).2
      have hiff := matches_front (s := s) ps hstar
      rw [if_neg hfront]
      split
      · next hlen =>
        intro hmatch
        have hle := (hiff.mp hmatch).1.le_length
        rw [length_pattern] at hle
        omega
      · cases hexact : matchExact s 0 front with
        | none => exact fun hmatch => (matchExact_eq_none_iff hstar).mp hexact (hiff.mp hmatch).1
        | some e =>
          have hfit := ((matchExact_eq_some_iff hstar).mp hexact).1
          have hsub : substr s front.length (s.length - front.length) = s.drop front.length := by
            rw [substr, List.take_of_length_le (by rw [List.length_drop])]
          rw [and_iff_right hfit] at hiff
          have hrest := ih (s := s.drop front.length) hps.tail
          simp only [hsub]
          revert hrest
          cases stripleft (s.drop front.length) ps with
          | none => exact fun hrest hmatch => hrest (hiff.mp hmatch)
          | some r => exact fun hrest =>
              ⟨hrest.1.trans (List.suffix_cons _ _), hrest.2.1, hiff.trans hrest.2.2⟩

lemma striprightLoop_strips (hps : Pieces '*' ps) :
    StripsRight (striprightLoop s ps) s ps := by
  induction ps generalizing s with
  | nil =>
    rw [striprightLoop]
    split
    · next hs => exact ⟨List.suffix_refl _, .inl rfl, Iff.rfl⟩
    · next hs => exact mt matches_nil_iff.mp hs
  | cons back ps ih =>
    rw [striprightLoop]
    by_cases hback : back = ['*']
    · rw [if_pos hback, hback]
      exact stripsRight_star s ps
    · have hstar := (hps.run hback).2
      rw [if_neg hback]
      exact .round hstar (fun _ => (matchExact_eq_none_iff hstar).not_left) (ih hps.tail)

/-- When no element is left, nothing is left of the string. -/
lemma striprightLoop_nil {s' : List Char} (h : striprightLoop s ps = some (s', [])) : s' = [] := by
  induction ps generalizing s with
  | nil =>
    rw [striprightLoop] at h
    split at h
    · next hs => simpa [hs] using h.symm
    · simp at h
  | cons back ps ih =>
    rw [striprightLoop] at h
    split at h
    · simp at h
    · split at h
      · simp at h
      · split at h
        · simp at h
        · exact ih h

/-- What `stripleft` and `stripright` leave begins and ends with a star. -/
lemma isMatch_correct (s p : List Char) : isMatch s p = true ↔ Matches (pattern p) s := by
  obtain ⟨hps, hflat⟩ := stringSplit_pieces p '*'
  have hleft := stripleft_strips (s := s) hps
  rw [isMatch]
  cases hl : stripleft s (stringSplit p '*') with
  | none =>
    rw [hl] at hleft
    rw [← hflat]
    exact iff_of_false (by simp) hleft
  | some l =>
    obtain ⟨s₁, ps₁⟩ := l
    rw [hl] at hleft
    obtain ⟨hsuffix, hhead, hiff⟩ := hleft
    have hps₁ := hps.of_suffix hsuffix
    have hright := striprightLoop_strips (s := s₁) hps₁.reverse
    rw [← hflat, hiff]
    simp only [stripright]
    cases hr : striprightLoop s₁ ps₁.reverse with
    | none =>
      rw [hr] at hright
      exact iff_of_false (by simp) (by simpa [StripsRight] using hright)
    | some r =>
      obtain ⟨s₂, ps₂⟩ := r
      rw [hr] at hright
      obtain ⟨hsuffix₂, hlast, hiff₂⟩ := hright
      rw [List.reverse_reverse] at hiff₂
      rw [hiff₂]
      simp only [Option.map_some]
      rcases hlast with rfl | ⟨qs, rfl⟩
      · rw [striprightLoop_nil hr]
        exact iff_of_true rfl .nil
      · obtain ⟨qs', hqs'⟩ : ∃ qs', (['*'] :: qs).reverse = ['*'] :: qs' :=
          starts_with_star hhead hsuffix₂
        have hpieces := (hps₁.reverse.of_suffix hsuffix₂).reverse
        have hloop := isMatchLoop_iff (s := s₂) (i := 0) hpieces (endsInStar_reverse qs)
          (Nat.zero_le _)
        rw [hloop, List.drop_zero, hqs', matches_star_pieces]

/-- `isMatch` of `44-2.cpp` decides whether the pattern matches the whole string. -/
theorem isMatch_iff_matches (s p : String) :
    isMatch s.toList p.toList = true ↔ Matches (pattern p.toList) s.toList :=
  isMatch_correct s.toList p.toList

end V2

/-! ## `44.cpp` -/

lemma isMatchLoop_iff (hps : Pieces '*' ps) (hends : EndsInStar ps) (hi : i ≤ s.length)
    {star : Bool} (hstar : star = true ∨ ps = [] ∨ ∃ qs, ps = ['*'] :: qs) :
    isMatchLoop s ps star i = true ↔ Matches (.star :: pattern ps.flatten) (s.drop i) := by
  induction ps generalizing i star with
  | nil => exact iff_of_true rfl matches_star_nil
  | cons p ps ih =>
    rw [isMatchLoop]
    by_cases hp : p = ['*']
    · rw [if_pos hp, ih hps.tail hends.tail hi (.inl rfl), hp, matches_star_pieces,
        pattern_star_cons]
    · obtain ⟨qs, rfl⟩ := hends.next_star hps hp
      obtain rfl : star = true := hstar.resolve_right (by simp [hp])
      have hrun := (hps.run hp).2
      rw [if_neg hp, if_pos rfl]
      exact (matchFrom_finds hrun).loop_iff hrun hi fun e he =>
        ih hps.tail hends.tail he (.inr (.inr ⟨qs, rfl⟩))

/-- The end of the first occurrence tells whether the piece fits at the start. -/
lemma Finds.eq_length_iff {r : Option ℕ} (h : Finds r (pattern p) s 0) :
    r = some p.length ↔ FitsAt (pattern p) s 0 := by
  cases r with
  | none => exact iff_of_false (by simp) (h 0 (Nat.le_refl 0))
  | some e =>
    obtain ⟨k, hfirst, rfl⟩ := h
    rw [length_pattern, Option.some.injEq]
    constructor
    · intro hk
      obtain rfl : k = 0 := by omega
      exact hfirst.2.1
    · intro hzero
      have hk := hfirst.le (Nat.le_refl 0) hzero
      omega

/-- A piece as long as the string is found only at the start. -/
lemma Finds.ne_none_iff {r : Option ℕ} (h : Finds r (pattern p) s 0) (hlen : s.length = p.length) :
    r ≠ none ↔ FitsAt (pattern p) s 0 := by
  rw [← h.eq_length_iff]
  cases r with
  | none => simp
  | some e =>
    have hbounds := h.bounds
    simp only [ne_eq, reduceCtorEq, not_false_eq_true, Option.some.injEq, true_iff]
    omega

lemma length_substr {pos len : ℕ} (h : pos + len ≤ s.length) : (substr s pos len).length = len := by
  rw [substr, List.length_take, List.length_drop]
  omega

lemma striprightLoop_strips (hps : Pieces '*' ps) :
    StripsRight (striprightLoop s ps) s ps := by
  induction ps generalizing s with
  | nil => exact ⟨List.suffix_refl _, .inl rfl, Iff.rfl⟩
  | cons back ps ih =>
    rw [striprightLoop]
    by_cases hback : back = ['*']
    · rw [if_pos hback, hback]
      exact stripsRight_star s ps
    · have hstar := (hps.run hback).2
      rw [if_neg hback]
      refine .round hstar (fun hlen => ?_) (ih hps.tail)
      have hlast : s.length - back.length + back.length ≤ s.length := by omega
      exact (matchFrom_finds (i := 0) hstar).ne_none_iff (length_substr hlast)

/-- What stands before the first star is compared with the start of the string. -/
lemma isMatchLoop_start (hps : Pieces '*' ps) (hends : EndsInStar ps) (hne : ps ≠ []) :
    isMatchLoop s ps false 0 = true ↔ Matches (pattern ps.flatten) s := by
  rcases ps with _ | ⟨p, ps⟩
  · exact absurd rfl hne
  · by_cases hp : p = ['*']
    · rw [isMatchLoop_iff hps hends (Nat.zero_le _) (.inr (.inr ⟨ps, by rw [hp]⟩)), hp,
        matches_star_pieces, List.drop_zero]
    · obtain ⟨qs, rfl⟩ := hends.next_star hps hp
      have hstar := (hps.run hp).2
      have hfinds := (matchFrom_finds (s := s) (i := 0) hstar).eq_length_iff
      rw [matches_front _ hstar, ← hfinds, isMatchLoop, if_neg hp, if_neg Bool.false_ne_true]
      cases hr : matchFrom s 0 p with
      | none => simp
      | some e =>
        have hbounds := (hr ▸ matchFrom_finds (s := s) (i := 0) hstar : Finds (some e) _ s 0).bounds
        rw [if_neg (by omega), Option.some.injEq]
        by_cases he : e = p.length
        · have hloop := isMatchLoop_iff hps.tail hends.tail hbounds.2
            (.inr (.inr ⟨qs, rfl⟩) : false = true ∨ _)
          rw [matches_star_pieces] at hloop
          simpa [he] using hloop
        · simp [he]

lemma isMatch_correct (s p : List Char) : isMatch s p = true ↔ Matches (pattern p) s := by
  obtain ⟨hps, hflat⟩ := stringSplit_pieces p '*'
  have hright := striprightLoop_strips (s := s) hps.reverse
  rw [isMatch]
  simp only [stripright]
  cases hr : striprightLoop s (stringSplit p '*').reverse with
  | none =>
    rw [hr] at hright
    refine iff_of_false (by simp) ?_
    simpa [StripsRight, hflat] using hright
  | some r =>
    obtain ⟨s₁, ps₁⟩ := r
    rw [hr] at hright
    obtain ⟨hsuffix, hlast, hiff⟩ := hright
    rw [List.reverse_reverse, hflat] at hiff
    rw [hiff]
    simp only [Option.map_some]
    rcases hlast with rfl | ⟨qs, rfl⟩
    · rw [List.reverse_nil, if_pos rfl, decide_eq_true_iff]
      exact matches_nil_iff.symm
    · have hpieces := (hps.reverse.of_suffix hsuffix).reverse
      rw [if_neg (by simp)]
      exact isMatchLoop_start hpieces (endsInStar_reverse qs) (by simp)

/-- The two versions agree on all strings. -/
theorem isMatch_eq_v2_isMatch (s p : String) :
    isMatch s.toList p.toList = V2.isMatch s.toList p.toList := by
  rw [Bool.eq_iff_iff, isMatch_correct, V2.isMatch_correct]

end CodeC.Leetcode44
