import CodeC.StringUtil

/-!
# What `replace_all` replaces

Every round searches from the beginning of the string. When the new value is not longer than the
old one, the rounds come to an end: the string gets shorter, or a digit falls in the binary number
that marks one symbol of the old value. The result is that of a replacement from left to right as
long as no occurrence begins in text that has been replaced.
-/

namespace CodeC.StringUtil
open Library

variable {old new str t u : List Char}

lemma replaceRound_again (h : replaceRound old new t = .again u) :
    ∃ p, findFrom t old 0 = some p ∧ (t.take p).length = p ∧
      t = t.take p ++ (old ++ t.drop (p + old.length)) ∧
      u = t.take p ++ (new ++ t.drop (p + old.length)) := by
  rw [replaceRound] at h
  split at h
  · rename_i p hp
    obtain rfl := Round.again.inj h
    obtain ⟨heq, hlen⟩ := eq_of_findFrom hp
    exact ⟨p, hp, hlen, heq, by rw [replace, List.append_assoc]⟩
  · cases h

lemma replaceRound_leave (h : replaceRound old new t = .leave u) : u = t ∧ ¬old <:+: t := by
  rw [replaceRound] at h
  split at h
  · cases h
  · rename_i hnone
    exact ⟨(Round.leave.inj h).symm, findFrom_eq_none_iff.mp hnone⟩

lemma replaceRound_of_some {p : ℕ} (h : findFrom t old 0 = some p) :
    replaceRound old new t = .again (t.take p ++ (new ++ t.drop (p + old.length))) := by
  rw [replaceRound, h]
  simp only [replace, List.append_assoc]

/-- A number that falls in every round ends the loop. -/
lemma replaceAll_of_falling (hne : old ≠ new) (f : List Char → ℕ)
    (hf : ∀ a b, f (a ++ (new ++ b)) < f (a ++ (old ++ b))) (str : List Char) :
    ∃ n r, (∀ fuel, n < fuel → replaceAll fuel str old new = some r) ∧
      Rounds (replaceRound old new) str r ∧ ¬old <:+: r := by
  let I := fun (m : ℕ) (t : List Char) => f t = m ∧ Rounds (replaceRound old new) str t
  have hagain : ∀ m t u, I m t → replaceRound old new t = .again u → ∃ k, k < m ∧ I k u := by
    rintro m t u ⟨rfl, hrounds⟩ h
    obtain ⟨p, -, -, ht, hu⟩ := replaceRound_again h
    have hlt := hf (t.take p) (t.drop (p + old.length))
    rw [← ht, ← hu] at hlt
    exact ⟨f u, hlt, rfl, hrounds.step h⟩
  have hleave : ∀ m t u, I m t → replaceRound old new t = .leave u →
      Rounds (replaceRound old new) str u ∧ ¬old <:+: u := by
    rintro m t u ⟨-, hrounds⟩ h
    obtain ⟨rfl, hno⟩ := replaceRound_leave h
    exact ⟨hrounds, hno⟩
  obtain ⟨r, hr, hloop⟩ := loop_total hagain hleave (s := str) ⟨rfl, .refl⟩
  refine ⟨f str, r, fun fuel hfuel => ?_, hr⟩
  rw [replaceAll, if_neg hne]
  exact hloop fuel hfuel

/-- The loop ends when the new value is not longer than the old one. The result is the string with
occurrences of the old value replaced one after the other, and when the two values differ it holds none
any more. -/
theorem replaceAll_ends (str old new : List Char) (hlen : new.length ≤ old.length) :
    ∃ n r, (∀ fuel, n < fuel → replaceAll fuel str old new = some r) ∧
      Rounds (replaceRound old new) str r ∧ (old ≠ new → ¬old <:+: r) := by
  by_cases heq : old = new
  · refine ⟨0, str, fun fuel _ => ?_, .refl, fun h => absurd heq h⟩
    rw [replaceAll, if_pos heq]
  rcases Nat.lt_or_eq_of_le hlen with hlt | hlen
  · obtain ⟨n, r, hr, hrounds, hno⟩ := replaceAll_of_falling heq List.length
      (fun a b => by simp only [List.length_append]; omega) str
    exact ⟨n, r, hr, hrounds, fun _ => hno⟩
  · -- the first difference of the two values decides
    obtain ⟨c, x, y, old', new', hxy, rfl, rfl⟩ := exists_first_difference
      (fun h => heq (h.eq_of_length hlen.symm)) (fun h => heq (h.eq_of_length hlen).symm)
    have hmark : ∀ a b, mark x (a ++ (c ++ y :: new' ++ b)) < mark x (a ++ (c ++ x :: old' ++ b)) := by
      intro a b
      have hlen' : (new' ++ b).length = (old' ++ b).length := by
        simp only [List.length_append, List.length_cons] at hlen ⊢
        omega
      simpa using mark_lt (a ++ c) hxy hlen'
    obtain ⟨n, r, hr, hrounds, hno⟩ := replaceAll_of_falling heq (mark x) hmark str
    exact ⟨n, r, hr, hrounds, fun _ => hno⟩

theorem replaceAll_ends_equal_lengths :
    ∃ n r, (∀ fuel, n < fuel →
      replaceAll fuel "aabb".toList "ab".toList "ba".toList = some r) ∧
      Rounds (replaceRound "ab".toList "ba".toList) "aabb".toList r ∧ ¬"ab".toList <:+: r := by
  obtain ⟨n, r, hr, hrounds, hno⟩ := replaceAll_ends "aabb".toList "ab".toList "ba".toList (by decide)
  exact ⟨n, r, hr, hrounds, hno (by decide)⟩

/-- Where no occurrence begins in the part that is done, a round replaces the next occurrence of the
original string. -/
lemma replaceRound_stage {done rest : List Char} {p : ℕ}
    (hdone : ∀ q < done.length, ¬old <+: (done ++ rest).drop q) (hp : findFrom rest old 0 = some p) :
    replaceRound old new (done ++ rest) =
      .again (done ++ (rest.take p ++ new) ++ rest.drop (p + old.length)) := by
  have hfind : findFrom (done ++ rest) old 0 = some (done.length + p) := by
    rw [findFrom_append hdone, hp, Option.map_some]
  rw [replaceRound_of_some hfind, List.take_length_add_append, Nat.add_assoc,
    List.drop_length_add_append]
  simp only [List.append_assoc]

/-- An undisturbed replacement is the one from left to right. -/
lemma replaceAll_of_undisturbed (hold : old ≠ []) (hne : old ≠ new)
    (h : Undisturbed old new str) (fuel : ℕ) (hfuel : str.length < fuel) :
    replaceAll fuel str old new = some (substitute old new 0 str) := by
  have hpos := List.length_pos_of_ne_nil hold
  let I := fun (m : ℕ) (t : List Char) =>
    ∃ done rest, Stage old new str done rest ∧ t = done ++ rest ∧ rest.length = m
  have hagain : ∀ m t u, I m t → replaceRound old new t = .again u → ∃ k, k < m ∧ I k u := by
    rintro m t u ⟨done, rest, hstage, rfl, rfl⟩ hround
    have hdone := h done rest hstage
    cases hp : findFrom rest old 0 with
    | none =>
      rw [replaceRound, findFrom_append hdone, hp] at hround
      cases hround
    | some p =>
      rw [replaceRound_stage hdone hp] at hround
      obtain rfl := Round.again.inj hround
      obtain ⟨heq, hlen⟩ := eq_of_findFrom hp
      have hrest := congrArg List.length heq
      rw [List.length_append, List.length_append, hlen] at hrest
      exact ⟨(rest.drop (p + old.length)).length, by omega, _, _, hstage.next hp, rfl, rfl⟩
  have hleave : ∀ m t r, I m t → replaceRound old new t = .leave r →
      r = substitute old new 0 str := by
    rintro m t r ⟨done, rest, hstage, rfl, -⟩ hround
    have hdone := h done rest hstage
    cases hp : findFrom rest old 0 with
    | none =>
      rw [(replaceRound_leave hround).1, hstage.substitute hold, substitute_of_none hp]
    | some p =>
      rw [replaceRound_stage hdone hp] at hround
      cases hround
  obtain ⟨r, rfl, hloop⟩ := loop_total hagain hleave (s := str) ⟨[], str, .start, rfl, rfl⟩
  rw [replaceAll, if_neg hne]
  exact hloop fuel hfuel

/-- When the replacement is disturbed, the loop comes to a string in which it finds an occurrence
that begins in the part that is done. -/
lemma exists_disturbed_stage (h : ¬Undisturbed old new str) :
    ∃ done rest, Stage old new str done rest ∧ Rounds (replaceRound old new) str (done ++ rest) ∧
      ∃ p < done.length, findFrom (done ++ rest) old 0 = some p := by
  by_contra hno
  -- up to then the loop goes through the stages
  have hreach : ∀ done rest, Stage old new str done rest →
      Rounds (replaceRound old new) str (done ++ rest) := by
    intro done rest hstage
    induction hstage with
    | start => exact .refl
    | next hstage hp ih =>
      refine ih.step (replaceRound_stage (fun q hq hpre => ?_) hp)
      obtain ⟨p, hpq, hfind⟩ := exists_findFrom_le hpre (by rw [List.length_append]; omega)
      exact hno ⟨_, _, hstage, ih, p, by omega, hfind⟩
  apply h
  intro done rest hstage q hq hpre
  obtain ⟨p, hpq, hfind⟩ := exists_findFrom_le hpre (by rw [List.length_append]; omega)
  exact hno ⟨done, rest, hstage, hreach done rest hstage, p, by omega, hfind⟩

/-- A new value that begins with the old one is found again and again. -/
lemma replaceAll_of_old_in_new (hne : old ≠ new) (hin : old <:+: new) (hstr : old <:+: str)
    (fuel : ℕ) : replaceAll fuel str old new = none := by
  rw [replaceAll, if_neg hne]
  cases hloop : loop (replaceRound old new) fuel str with
  | none => rfl
  | some r =>
    have hagain : ∀ t u, old <:+: t → replaceRound old new t = .again u → old <:+: u := by
      intro t u _ hround
      obtain ⟨p, -, -, -, rfl⟩ := replaceRound_again hround
      exact hin.trans (List.infix_append' _ _ _)
    have hleave : ∀ t r, old <:+: t → replaceRound old new t = .leave r → False := by
      intro t r ht hround
      exact (replaceRound_leave hround).2 ht
    exact (loop_result hagain hleave hstr hloop).elim

section difference

variable {c old' new' : List Char} {x y : Char}

lemma falls_of_round (hxy : x ≠ y) {p : ℕ}
    (hp : findFrom t (c ++ x :: old') 0 = some p)
    (h : replaceRound (c ++ x :: old') (c ++ y :: new') t = .again u) :
    Falls x (p + c.length) t u := by
  obtain ⟨p', hp', hlen, ht, hu⟩ := replaceRound_again h
  obtain rfl : p' = p := Option.some.inj (hp'.symm.trans hp)
  have hfalls := falls_append (t.take p' ++ c) (old' ++ t.drop (p' + (c ++ x :: old').length))
    (new' ++ t.drop (p' + (c ++ x :: old').length)) hxy
  rw [List.length_append, hlen] at hfalls
  rw [ht, hu]
  simpa using hfalls

/-- After a round at `p` the string stays below the one before it, at a position not behind the
first difference. -/
lemma falls_of_loop (hxy : x ≠ y) {p fuel : ℕ} {r : List Char}
    (hp : findFrom t (c ++ x :: old') 0 = some p)
    (h : loop (replaceRound (c ++ x :: old') (c ++ y :: new')) fuel t = some r) :
    ∃ i ≤ p + c.length, Falls x i t r := by
  cases fuel with
  | zero => cases h
  | succ fuel =>
    have hround : replaceRound (c ++ x :: old') (c ++ y :: new') t = _ := replaceRound_of_some hp
    have hfirst := falls_of_round hxy hp hround
    rw [loop, hround] at h
    refine loop_result (I := fun u => ∃ i ≤ p + c.length, Falls x i t u)
      (P := fun r => ∃ i ≤ p + c.length, Falls x i t r) ?_ ?_ ⟨_, Nat.le_refl _, hfirst⟩ h
    · rintro u v ⟨i, hi, hfalls⟩ hround
      obtain ⟨q, hq, -⟩ := replaceRound_again hround
      have hnext := falls_of_round hxy hq hround
      exact ⟨_, Nat.le_trans (Nat.min_le_left _ _) hi, hfalls.trans hnext⟩
    · rintro u r ⟨i, hi, hfalls⟩ hround
      rw [(replaceRound_leave hround).1]
      exact ⟨i, hi, hfalls⟩

/-- Up to the first difference in the next occurrence, what a replacement from left to right makes
of a stage is the stage. -/
lemma substitute_getElem? {done rest : List Char} {i : ℕ} (hi : i < done.length + c.length) :
    (done ++ substitute (c ++ x :: old') (c ++ y :: new') 0 rest)[i]? = (done ++ rest)[i]? := by
  cases hp : findFrom rest (c ++ x :: old') 0 with
  | none => rw [substitute_of_none hp]
  | some p =>
    obtain ⟨heq, hlen⟩ := eq_of_findFrom hp
    have hi' : i < (done ++ rest.take p ++ c).length := by
      rw [List.length_append, List.length_append]
      omega
    have hsub : substitute (c ++ x :: old') (c ++ y :: new') 0 rest = _ :=
      substitute_of_some (by simp) hp
    have hleft : done ++ substitute (c ++ x :: old') (c ++ y :: new') 0 rest =
        (done ++ rest.take p ++ c) ++ (y :: (new' ++ substitute (c ++ x :: old') (c ++ y :: new') 0
          (rest.drop (p + (c ++ x :: old').length)))) := by
      rw [hsub]
      simp
    have hright : done ++ rest = (done ++ rest.take p ++ c) ++
        (x :: (old' ++ rest.drop (p + (c ++ x :: old').length))) := by
      conv_lhs => rw [heq]
      simp
    rw [hleft, hright, List.getElem?_append_left hi', List.getElem?_append_left hi']

end difference

/-- A disturbed replacement does not end with the string replaced from left to right, unless the old
value begins with the new one. -/
lemma undisturbed_of_replaceAll (hold : old ≠ []) (hne : old ≠ new) (hnew : ¬new <+: old)
    {fuel : ℕ} (h : replaceAll fuel str old new = some (substitute old new 0 str)) :
    Undisturbed old new str := by
  by_contra hdis
  obtain ⟨done, rest, hstage, hreach, p, hp, hfind⟩ := exists_disturbed_stage hdis
  by_cases hin : old <+: new
  · have hstr : old <:+: str := by
      by_contra hno
      obtain ⟨rfl, -⟩ := hstage.eq_of_none (findFrom_eq_none_iff.mpr hno)
      cases hp
    rw [replaceAll_of_old_in_new hne hin.isInfix hstr] at h
    cases h
  · obtain ⟨c, x, y, old', new', hxy, rfl, rfl⟩ := exists_first_difference hin hnew
    rw [replaceAll, if_neg hne] at h
    obtain ⟨fuel', hloop⟩ := hreach.loop_eq h
    obtain ⟨i, hi, hfalls⟩ := falls_of_loop hxy hfind hloop
    apply hfalls.after
    rw [hstage.substitute hold, substitute_getElem? (by omega)]
    exact hfalls.before

/-- The result is that of the replacement from left to right when no occurrence of the old value
ever begins in text that is already replaced, and, where the old value does not begin with the new
one, only then. In all other cases the loop finds an occurrence in text that it has replaced. -/
theorem replaceAll_eq_substitute (str old new : List Char) (hold : old ≠ []) :
    (old = new ∨ Undisturbed old new str →
      ∃ n, ∀ fuel, n < fuel → replaceAll fuel str old new = some (substitute old new 0 str)) ∧
    (¬(new <+: old ∧ new ≠ old) →
      (∃ n, ∀ fuel, n < fuel → replaceAll fuel str old new = some (substitute old new 0 str)) →
      old = new ∨ Undisturbed old new str) ∧
    (¬(old = new ∨ Undisturbed old new str) → ∃ done rest, Stage old new str done rest ∧
      Rounds (replaceRound old new) str (done ++ rest) ∧
      ∃ p < done.length, findFrom (done ++ rest) old 0 = some p) := by
  refine ⟨?_, ?_, ?_⟩
  · intro h
    by_cases heq : old = new
    · subst heq
      refine ⟨0, fun fuel _ => ?_⟩
      rw [replaceAll, if_pos rfl, substitute_self hold]
    · exact ⟨str.length, replaceAll_of_undisturbed hold heq (h.resolve_left heq)⟩
  · rintro hnew ⟨n, hn⟩
    by_cases heq : old = new
    · exact .inl heq
    · refine .inr (undisturbed_of_replaceAll hold heq ?_ (hn (n + 1) (Nat.lt_succ_self n)))
      exact fun hpre => hnew ⟨hpre, Ne.symm heq⟩
  · intro h
    rw [not_or] at h
    exact exists_disturbed_stage h.2

theorem replaceAll_eq_substitute_abb :
    Undisturbed ['b'] ['x', 'y'] ['a', 'b', 'b'] ∧
      ∃ n, ∀ fuel, n < fuel →
        replaceAll fuel ['a', 'b', 'b'] ['b'] ['x', 'y'] = some ['a', 'x', 'y', 'x', 'y'] := by
  obtain ⟨hmpr, hmp, -⟩ := replaceAll_eq_substitute ['a', 'b', 'b'] ['b'] ['x', 'y'] (by decide)
  have hrun : ∃ n, ∀ fuel, n < fuel → replaceAll fuel ['a', 'b', 'b'] ['b'] ['x', 'y'] =
      some (substitute ['b'] ['x', 'y'] 0 ['a', 'b', 'b']) := by
    refine ⟨2, fun fuel hfuel => ?_⟩
    obtain ⟨k, rfl⟩ := Nat.exists_eq_add_of_lt hfuel
    rw [Nat.add_comm 2 k]
    rfl
  have h := (hmp (by decide) hrun).resolve_left (by decide)
  exact ⟨h, hmpr (.inr h)⟩

/-- A value that holds the old one is replaced without end, and an occurrence that a replacement
makes is replaced like one of the original string. -/
theorem replaceAll_rescans :
    (∀ fuel, replaceAll fuel ['a'] ['a'] ['a', 'a'] = none) ∧
      replaceAll 4 ['a', 'a', 'a', 'a'] ['a', 'a'] ['b', 'a'] = some ['b', 'b', 'b', 'a'] ∧
      substitute ['a', 'a'] ['b', 'a'] 0 ['a', 'a', 'a', 'a'] = ['b', 'a', 'b', 'a'] := by
  refine ⟨fun fuel => ?_, by decide, by decide⟩
  exact replaceAll_of_old_in_new (by decide) (by decide) (List.infix_refl _) fuel

end CodeC.StringUtil
