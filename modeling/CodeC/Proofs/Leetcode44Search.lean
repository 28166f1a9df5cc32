import CodeC.Leetcode44
import CodeC.Library.Wildcard
import Mathlib.Data.List.Chain

/-!
# Splitting a pattern and searching its pieces

`stringSplit` cuts a pattern at a character, with no two pieces side by side. Both versions of
`match` find the first position where a piece fits. In `44.cpp` the body `match2` may find it from
an earlier position, because it lets the first run of letters move to the right.
-/

namespace CodeC.Leetcode44
open Library

/-- What a character of a pattern stands for. -/
def sym (c : Char) : Sym Char := if c = '*' then .star else if c = '?' then .any else .lit c

def pattern (p : List Char) : List (Sym Char) := p.map sym

@[simp] lemma length_pattern (p : List Char) : (pattern p).length = p.length := List.length_map ..

lemma pattern_append (p q : List Char) : pattern (p ++ q) = pattern p ++ pattern q :=
  List.map_append ..

@[simp] lemma pattern_star : pattern ['*'] = [.star] := rfl

lemma star_not_mem_pattern {p : List Char} (hp : '*' ∉ p) : .star ∉ pattern p := by
  intro h
  obtain ⟨c, hc, hsym⟩ := List.mem_map.mp h
  have hne : c ≠ '*' := fun heq => hp (heq ▸ hc)
  unfold sym at hsym
  split at hsym
  · contradiction
  · split at hsym <;> cases hsym

lemma sym_accepts {c d : Char} (hc : c ≠ '*') : (sym c).Accepts d ↔ c = '?' ∨ c = d := by
  unfold sym
  rw [if_neg hc]
  split
  · simp [Sym.Accepts, *]
  · simp [Sym.Accepts, *, eq_comm]

section pieces

variable {delim : Char} {ps : List (List Char)}

/-- The elements of a string cut at `delim`: the delimiters, and runs of other characters between
them. -/
structure Pieces (delim : Char) (ps : List (List Char)) : Prop where
  elem : ∀ e ∈ ps, e = [delim] ∨ e ≠ [] ∧ delim ∉ e
  apart : ps.IsChain fun a b => a = [delim] ∨ b = [delim]

lemma Pieces.tail {e : List Char} (h : Pieces delim (e :: ps)) : Pieces delim ps :=
  ⟨fun d hd => h.elem d (by simp [hd]), h.apart.tail⟩

lemma Pieces.reverse (h : Pieces delim ps) : Pieces delim ps.reverse where
  elem e he := h.elem e (by simpa using he)
  apart := by
    rw [List.isChain_reverse]
    exact h.apart.imp fun _ _ => Or.symm

lemma Pieces.of_suffix {qs : List (List Char)} (h : Pieces delim ps) (hqs : qs <:+ ps) :
    Pieces delim qs :=
  ⟨fun e he => h.elem e (hqs.subset he), h.apart.suffix hqs⟩

/-- A run is followed by a delimiter. -/
lemma Pieces.next_delim {e : List Char} (h : Pieces delim (e :: ps)) (he : e ≠ [delim]) :
    ps = [] ∨ ∃ qs, ps = [delim] :: qs := by
  rcases ps with _ | ⟨d, qs⟩
  · exact .inl rfl
  · have hd := (List.isChain_cons_cons.mp h.apart).1.resolve_left he
    exact .inr ⟨qs, by rw [hd]⟩

lemma Pieces.run {e : List Char} (h : Pieces delim (e :: ps)) (he : e ≠ [delim]) :
    e ≠ [] ∧ delim ∉ e := (h.elem e (by simp)).resolve_left he

/-- A run may be put behind elements that end with a delimiter. -/
lemma Pieces.concat {e : List Char} (h : Pieces delim ps) (he : e = [delim] ∨ e ≠ [] ∧ delim ∉ e)
    (hlast : e = [delim] ∨ ∀ d ∈ ps.getLast?, d = [delim]) : Pieces delim (ps ++ [e]) where
  elem d hd := by
    rcases List.mem_append.mp hd with hd | hd
    · exact h.elem d hd
    · obtain rfl : d = e := by simpa using hd
      exact he
  apart := by
    rw [List.isChain_append]
    refine ⟨h.apart, .singleton e, fun d hd b hb => ?_⟩
    obtain rfl : e = b := by simpa using hb
    exact hlast.symm.imp_left fun hlast => hlast d hd

/-- The elements with the run before the current character. -/
lemma Pieces.push {cur : List Char} (h : Pieces delim ps)
    (hlast : ∀ d ∈ ps.getLast?, d = [delim]) (hcur : delim ∉ cur) :
    Pieces delim (if cur = [] then ps else ps ++ [cur]) ∧
      (if cur = [] then ps else ps ++ [cur]).flatten = ps.flatten ++ cur := by
  split
  · next hnil => exact ⟨h, by simp [hnil]⟩
  · next hne => exact ⟨h.concat (.inr ⟨hne, hcur⟩) (.inr hlast), by simp⟩

lemma stringSplitLoop_pieces {str cur : List Char} (h : Pieces delim ps)
    (hlast : ∀ d ∈ ps.getLast?, d = [delim]) (hcur : delim ∉ cur) :
    Pieces delim (stringSplitLoop delim str cur ps) ∧
      (stringSplitLoop delim str cur ps).flatten = ps.flatten ++ cur ++ str := by
  induction str generalizing cur ps with
  | nil => simpa [stringSplitLoop] using h.push hlast hcur
  | cons c str ih =>
    rw [stringSplitLoop]
    split
    · next hc =>
      subst hc
      obtain ⟨hpieces, hflat⟩ := h.push hlast hcur
      have hrest := ih (hpieces.concat (.inl rfl) (.inl rfl)) (by simp) List.not_mem_nil
      refine ⟨hrest.1, hrest.2.trans ?_⟩
      rw [List.flatten_append, hflat]
      simp
    · next hc =>
      have hcur' : delim ∉ cur ++ [c] := by simp [hcur, Ne.symm hc]
      have hrest := ih h hlast hcur'
      exact ⟨hrest.1, hrest.2.trans (by simp)⟩

lemma stringSplit_pieces (str : List Char) (delim : Char) :
    Pieces delim (stringSplit str delim) ∧ (stringSplit str delim).flatten = str := by
  have hnil : Pieces delim [] := ⟨by simp, .nil⟩
  exact stringSplitLoop_pieces hnil (by simp) List.not_mem_nil

end pieces

section search

variable {s p : List Char} {i : ℕ}

/-- The result of a search for `p` from position `i` on: the end of its first occurrence. -/
def Finds (r : Option ℕ) (p : List (Sym Char)) (s : List Char) (i : ℕ) : Prop :=
  match r with
  | none => ∀ k, i ≤ k → ¬FitsAt p s k
  | some e => ∃ k, FirstFit p s i k ∧ e = k + p.length

/-- A body of `match` that may find an occurrence further right, but none that fits in place is
lost. -/
structure Attempt (attempt : List Char → ℕ → List Char → Option ℕ) (p : List Char) : Prop where
  found : ∀ s i e, attempt s i p = some e →
    ∃ k, FirstFit (pattern p) s i k ∧ e = k + p.length
  tries : ∀ s i, FitsAt (pattern p) s i → attempt s i p ≠ none

lemma search_finds {attempt : List Char → ℕ → List Char → Option ℕ} (h : Attempt attempt p) :
    Finds (search attempt s i p) (pattern p) s i := by
  cases hsearch : search attempt s i p with
  | none =>
    intro k hik hfit
    have hle := hfit.le_length
    rw [length_pattern] at hle
    refine h.tries s k hfit (List.findSome?_eq_none_iff.mp hsearch k ?_)
    rw [List.mem_range'_1]
    omega
  | some e =>
    obtain ⟨before, j, after, hrange, hj, hnone⟩ := List.findSome?_eq_some_iff.mp hsearch
    obtain ⟨m, hm, rfl, hrest⟩ := List.range'_eq_append_iff.mp hrange
    obtain ⟨k, ⟨hjk, hfit, hfirst⟩, rfl⟩ := h.found s j e hj
    have hj' : j = i + m := by
      cases hn : s.length - p.length + 1 - i - m with
      | zero => simp [hn] at hrest
      | succ n =>
        rw [hn, List.range'_succ] at hrest
        simpa using (List.cons.inj hrest).1
    refine ⟨k, ⟨by omega, hfit, fun l hil hlk hl => ?_⟩, by simp⟩
    rcases Nat.lt_or_ge l j with hlj | hjl
    · exact h.tries s l hl (hnone l (by rw [List.mem_range'_1]; omega))
    · exact hfirst l hjl hlk hl

end search

namespace V2

variable {s p : List Char} {i : ℕ}

lemma matchExact_eq_some_iff (hp : '*' ∉ p) {e : ℕ} :
    matchExact s i p = some e ↔ FitsAt (pattern p) s i ∧ e = i + p.length := by
  have hall : FitsAt (pattern p) s i ↔ i + p.length ≤ s.length ∧
      (List.range p.length).all (fun j => p[j]? == some '?' || p[j]? == s[i + j]?) = true := by
    rw [fitsAt_iff_getElem?, length_pattern]
    refine and_congr_right fun hlen => ?_
    simp only [List.all_eq_true, List.mem_range, Bool.or_eq_true, beq_iff_eq]
    constructor
    · intro h j hj
      obtain ⟨c, hc, haccepts⟩ := h j (sym p[j]) (by simp [pattern, hj])
      rw [List.getElem?_eq_getElem hj, hc, Option.some.injEq, Option.some.injEq]
      exact (sym_accepts fun hstar => hp (hstar ▸ List.getElem_mem hj)).mp haccepts
    · intro h k x hx
      obtain ⟨d, hd, rfl⟩ : ∃ d, p[k]? = some d ∧ sym d = x := by simpa [pattern] using hx
      obtain ⟨hk, rfl⟩ := List.getElem?_eq_some_iff.mp hd
      have hget : s[i + k]? = some s[i + k] := List.getElem?_eq_getElem (by omega)
      have htest := h k hk
      rw [hd, hget, Option.some.injEq, Option.some.injEq] at htest
      exact ⟨_, hget, (sym_accepts fun hstar => hp (hstar ▸ List.getElem_mem hk)).mpr htest⟩
  rw [hall, matchExact]
  split
  · next hlen =>
    refine iff_of_false (by simp) fun h => ?_
    have := h.1.1
    omega
  · next hlen =>
    split
    · next htest => simp [htest, Nat.not_lt.mp hlen, eq_comm]
    · next htest => simp [htest]

lemma matchExact_eq_none_iff (hp : '*' ∉ p) :
    matchExact s i p = none ↔ ¬FitsAt (pattern p) s i := by
  rw [Option.eq_none_iff_forall_ne_some]
  constructor
  · exact fun h hfit => h _ ((matchExact_eq_some_iff hp).mpr ⟨hfit, rfl⟩)
  · exact fun h e he => h ((matchExact_eq_some_iff hp).mp he).1

lemma attempt_matchExact (hp : '*' ∉ p) : Attempt matchExact p where
  found s i e h := by
    obtain ⟨hfit, rfl⟩ := (matchExact_eq_some_iff hp).mp h
    exact ⟨i, ⟨Nat.le_refl i, hfit, fun k hik hki => absurd hki (by omega)⟩, rfl⟩
  tries s i hfit h := (matchExact_eq_none_iff hp).mp h hfit

lemma matchFrom_finds (hp : '*' ∉ p) : Finds (matchFrom s i p) (pattern p) s i :=
  search_finds (attempt_matchExact hp)

end V2

section float

variable {s p : List Char} {i : ℕ}

lemma pattern_letters (hstar : '*' ∉ p) (hany : '?' ∉ p) : pattern p = p.map .lit := by
  refine List.map_congr_left fun c hc => ?_
  have hc₁ : c ≠ '*' := fun h => hstar (h ▸ hc)
  have hc₂ : c ≠ '?' := fun h => hany (h ▸ hc)
  rw [sym, if_neg hc₁, if_neg hc₂]

/-- A run of letters fits where it is a substring. -/
lemma fitsAt_run (hstar : '*' ∉ p) (hany : '?' ∉ p) (hne : p ≠ []) :
    FitsAt (pattern p) s i ↔ substr s i p.length = p := by
  rw [pattern_letters hstar hany, fitsAt_lits, List.prefix_iff_eq_take, substr, eq_comm]
  refine and_iff_right_of_imp fun h => ?_
  by_contra hi
  rw [List.drop_eq_nil_of_le (by omega), List.take_nil] at h
  exact hne h.symm

lemma find_finds (hstar : '*' ∉ p) (hany : '?' ∉ p) (hne : p ≠ []) :
    match find s p i with
    | none => ∀ k, i ≤ k → ¬FitsAt (pattern p) s k
    | some j => FirstFit (pattern p) s i j := by
  cases hfind : find s p i with
  | none =>
    intro k hik hfit
    have hle := hfit.le_length
    rw [length_pattern] at hle
    refine List.find?_eq_none.mp hfind k ?_ (by simpa using (fitsAt_run hstar hany hne).mp hfit)
    rw [List.mem_range'_1]
    omega
  | some j =>
    obtain ⟨hj, hmem, hfirst⟩ := List.find?_range'_eq_some.mp hfind
    refine ⟨(List.mem_range'_1.mp hmem).1, (fitsAt_run hstar hany hne).mpr (by simpa using hj), ?_⟩
    intro k hik hkj hfit
    exact absurd ((fitsAt_run hstar hany hne).mp hfit) (by simpa using hfirst k hik hkj)

lemma fitsAt_question {q : List (Sym Char)} :
    FitsAt (pattern ['?'] ++ q) s i ↔ FitsAt q s (i + 1) := fitsAt_any

/-- After its first run of letters, `match2` compares in place. -/
lemma match2Loop_fixed {ps : List (List Char)} (hps : Pieces '?' ps) (hstar : '*' ∉ ps.flatten)
    {e : ℕ} :
    match2Loop s ps i false = some e ↔
      FitsAt (pattern ps.flatten) s i ∧ e = i + ps.flatten.length := by
  induction ps generalizing i with
  | nil =>
    rw [match2Loop]
    split
    · next hi => simp [pattern, FitsAt, hi]
    · next hi => simp [pattern, FitsAt, Nat.not_lt.mp hi, eq_comm]
  | cons p ps ih =>
    rw [List.flatten_cons, List.mem_append, not_or] at hstar
    rw [match2Loop, List.flatten_cons, pattern_append, List.length_append, ← Nat.add_assoc]
    by_cases hp : p = ['?']
    · rw [if_pos hp, ih hps.tail hstar.2, hp, fitsAt_question, List.length_singleton]
    · obtain ⟨hne, hany⟩ := hps.run hp
      have hrun := fitsAt_run (s := s) (i := i) hstar.1 hany hne
      rw [if_neg hp, if_neg Bool.false_ne_true, fitsAt_append, length_pattern, hrun]
      split
      · next hlen =>
        refine iff_of_false (by simp) fun h => ?_
        have hle := (hrun.mpr h.1.1).le_length
        rw [length_pattern] at hle
        omega
      · split
        · next hne => simp [Ne.symm hne]
        · next heq => rw [ih hps.tail hstar.2, ← not_ne_iff.mp heq, eq_self, true_and]

/-- `match2` finds the first occurrence, if it finds one, and it finds one that fits in place. -/
lemma match2Loop_float {ps : List (List Char)} (hps : Pieces '?' ps) (hstar : '*' ∉ ps.flatten) :
    (∀ e, match2Loop s ps i true = some e →
      ∃ k, FirstFit (pattern ps.flatten) s i k ∧ e = k + ps.flatten.length) ∧
    (FitsAt (pattern ps.flatten) s i → match2Loop s ps i true ≠ none) := by
  induction ps generalizing i with
  | nil =>
    rw [match2Loop]
    split
    · next hi => simp [pattern, FitsAt, hi]
    · next hi =>
      refine ⟨fun e he => ⟨i, ⟨Nat.le_refl i, Nat.not_lt.mp hi, fun k _ _ => ?_⟩, ?_⟩, by simp⟩
      · omega
      · simpa using he.symm
  | cons p ps ih =>
    rw [List.flatten_cons, List.mem_append, not_or] at hstar
    rw [match2Loop, List.flatten_cons, pattern_append, List.length_append]
    by_cases hp : p = ['?']
    · obtain ⟨hfound, htries⟩ := ih (i := i + 1) hps.tail hstar.2
      rw [if_pos hp, hp, fitsAt_question, List.length_singleton]
      refine ⟨fun e he => ?_, htries⟩
      obtain ⟨k, ⟨hik, hfit, hfirst⟩, rfl⟩ := hfound e he
      obtain ⟨k, rfl⟩ : ∃ l, k = l + 1 := ⟨k - 1, by omega⟩
      refine ⟨k, ⟨by omega, fitsAt_question.mpr hfit, fun l hil hlk hl => ?_⟩, by omega⟩
      exact hfirst (l + 1) (by omega) (by omega) (fitsAt_question.mp hl)
    · obtain ⟨hne, hany⟩ := hps.run hp
      have hfind := find_finds (s := s) (i := i) hstar.1 hany hne
      rw [if_neg hp, if_pos rfl]
      split
      · next hlen =>
        refine ⟨by simp, fun hfit => ?_⟩
        have hle := (fitsAt_append.mp hfit).1.le_length
        rw [length_pattern] at hle
        omega
      · cases hj : find s p i with
        | none =>
          rw [hj] at hfind
          exact ⟨by simp, fun hfit => absurd (fitsAt_append.mp hfit).1 (hfind i (Nat.le_refl i))⟩
        | some j =>
          rw [hj] at hfind
          have hfirst : FirstFit (pattern p) s i j := hfind
          refine ⟨fun e he => ?_, fun hall => ?_⟩
          · obtain ⟨hrest, rfl⟩ := (match2Loop_fixed hps.tail hstar.2).mp he
            exact ⟨j, hfirst.append (by simpa using hrest), by omega⟩
          · -- the run cannot move away from a place where all of the piece fits
            have hhere := fitsAt_append.mp hall
            have heq : j = i := Nat.le_antisymm (hfirst.le (Nat.le_refl i) hhere.1) hfirst.1
            rw [length_pattern, ← heq] at hhere
            exact Option.ne_none_iff_exists'.mpr
              ⟨_, (match2Loop_fixed hps.tail hstar.2).mpr ⟨hhere.2, rfl⟩⟩

lemma attempt_match2 (hp : '*' ∉ p) : Attempt match2 p := by
  obtain ⟨hps, hflat⟩ := stringSplit_pieces p '?'
  have hstar : '*' ∉ (stringSplit p '?').flatten := by rwa [hflat]
  have hfloat := fun s i => match2Loop_float (s := s) (i := i) hps hstar
  simp only [hflat] at hfloat
  exact ⟨fun s i => (hfloat s i).1, fun s i => (hfloat s i).2⟩

lemma matchFrom_finds (hp : '*' ∉ p) : Finds (matchFrom s i p) (pattern p) s i :=
  search_finds (attempt_match2 hp)

end float

end CodeC.Leetcode44
