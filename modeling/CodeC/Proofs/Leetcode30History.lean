import CodeC.Proofs.Leetcode30Windows
import CodeC.Proofs.Leetcode41History

/-!
# What earlier calls on the same object change

The members `v` of `leetcode/41.cpp` and `status_` of `leetcode/30.cpp` are resized and not cleared,
so a call reads what earlier calls have left there.
-/

namespace CodeC.Leetcode30

variable {e : Env} {entry entry' : ℕ → Option ℕ} {status : List Status} {limit i j p : ℕ}

/-- The loops have come to an occurrence at `j` before the occurrence `p` of word `i`, or are there. -/
def Env.Written (e : Env) (limit i p j : ℕ) : Prop :=
  j ≤ limit ∧ ∃ i' ≤ i, e.Occurs i' j ∧ (i' = i → j ≤ p)

lemma afterWords_congr (h : (∀ i' < i, ¬(e.Occurs i' j ∧ j ≤ limit)) → entry j = entry' j) :
    e.afterWords limit entry i j = e.afterWords limit entry' i j := by
  induction i with
  | zero => exact h fun i' hi' => absurd hi' (Nat.not_lt_zero i')
  | succ i ih =>
    rw [Env.afterWords, Env.afterWords]
    by_cases hocc : e.Occurs i j ∧ j ≤ limit
    · rw [if_pos hocc, if_pos hocc]
    · rw [if_neg hocc, if_neg hocc]
      apply ih
      intro hnone
      apply h
      intro i' hi'
      rcases Nat.lt_succ_iff_lt_or_eq.mp hi' with hlt | rfl
      · exact hnone i' hlt
      · exact hocc

/-- What earlier calls have left at `j` is not seen once the loops have written there. -/
lemma during_congr (h : ¬e.Written limit i p j → entry j = entry' j) :
    e.during limit entry i (p + 1) j = e.during limit entry' i (p + 1) j := by
  unfold Env.during
  by_cases hocc : e.Occurs i j ∧ j ≤ limit ∧ j < p + 1
  · rw [if_pos hocc, if_pos hocc]
  · rw [if_neg hocc, if_neg hocc]
    apply afterWords_congr
    intro hnone
    apply h
    rintro ⟨hj, i', hi', hocc', hp⟩
    rcases Nat.lt_or_eq_of_le hi' with hlt | rfl
    · exact hnone i' hlt ⟨hocc', hj⟩
    · exact hocc ⟨hocc', hj, Nat.lt_succ_of_le (hp rfl)⟩

/-- Whether the words follow depends on the entries up to the first word that is not left over. -/
lemma follows_congr {wordset : List ℕ}
    (h : ∀ ks : List ℕ, ks.Subperm wordset → ks.length < wordset.length → e.Reads entry' j ks →
      j + ks.length * e.wordLen < e.s.length →
      entry (j + ks.length * e.wordLen) = entry' (j + ks.length * e.wordLen)) :
    e.Follows entry wordset j ↔ e.Follows entry' wordset j := by
  induction hn : wordset.length generalizing wordset j with
  | zero =>
    obtain rfl := List.eq_nil_of_length_eq_zero hn
    exact iff_of_true follows_nil follows_nil
  | succ n ih =>
    have hne : wordset ≠ [] := by
      rintro rfl
      cases hn
    rw [follows_iff hne, follows_iff hne]
    refine and_congr_right fun hj => ?_
    have hentry : entry j = entry' j := by
      have hzero := h [] List.nil_subperm (by rw [hn]; exact Nat.succ_pos n) trivial
      simpa [hj] using hzero
    rw [hentry]
    refine exists_congr fun k => and_congr_right fun hk => and_congr_right fun hjk => ?_
    have hlength : (wordset.erase k).length = n := by
      rw [List.length_erase_of_mem hk, hn]
      rfl
    refine ih ?_ hlength
    intro ks hsub hlen hreads hlt
    have hadd : j + e.wordLen + ks.length * e.wordLen = j + (k :: ks).length * e.wordLen := by
      rw [List.length_cons, Nat.succ_mul]
      omega
    rw [hadd] at hlt ⊢
    refine h (k :: ks) ?_ ?_ ⟨hj, hjk, hreads⟩ hlt
    · exact ((List.subperm_cons k).mpr hsub).trans (List.perm_cons_erase hk).symm.subperm
    · rw [List.length_cons, hn]
      omega

/-- A call on a new object asks for `status_[j]`, and the loops have not written it: from an occurrence
`p` of a word, the words up to `j` are among those that are left. -/
def LooksUp (s : List Char) (words : List (List Char)) (j : ℕ) : Prop :=
  let e := Env.of s words
  ∃ i < e.words.length, ∃ p ≤ lastStart s words, e.Occurs i p ∧ ¬e.Written (lastStart s words) i p j ∧
    ∃ ks : List ℕ, ks.Subperm ((wordsetint e words).erase i) ∧
      ks.length < ((wordsetint e words).erase i).length ∧
      e.Reads (e.during (lastStart s words) e.trueEntry i (p + 1)) (p + e.wordLen) ks ∧
      j = p + e.wordLen + ks.length * e.wordLen ∧ j < s.length

lemma windows_congr {s : List Char} {words : List (List Char)}
    (h : ∀ j, LooksUp s words j → entry j = (Env.of s words).trueEntry j) :
    windows s words entry = windows s words (Env.of s words).trueEntry := by
  rw [windows, windows, Env.windowsUpTo, Env.windowsUpTo]
  apply List.flatMap_congr
  intro i hi
  apply List.filter_congr
  intro p _
  refine decide_eq_decide.mpr (and_congr_right fun hocc => and_congr_right fun hp => ?_)
  apply follows_congr
  intro ks hsub hlen hreads hlt
  apply during_congr
  intro hnot
  exact h _ ⟨i, List.mem_range.mp hi, p, hp, hocc, hnot, ks, hsub, hlen, hreads, rfl, hlt⟩

/-- The entry says of position `j` what it is meant to say: the index of the word there, or that there is
none. -/
def Env.Names (e : Env) (j : ℕ) : Status → Prop
  | .unknown => True
  | .noMatch => e.chunk j ∉ e.words
  | .word k => e.words[k]? = some (e.chunk j)

lemma entry_eq_of_names (hnodup : e.words.Nodup) (h : e.Names j (status.getD j .unknown)) :
    e.entry status j = e.trueEntry j := by
  unfold Env.entry
  cases hx : status.getD j .unknown with
  | unknown => rfl
  | noMatch =>
    rw [hx] at h
    exact (List.idxOf?_eq_none_iff.mpr h).symm
  | word k =>
    rw [hx] at h
    exact ((trueEntry_eq_some_iff hnodup).mpr h).symm

lemma getD_resize (status : List Status) (n j : ℕ) :
    (resize status n).getD j .unknown = if j < n then status.getD j .unknown else .unknown :=
  Library.getD_take_append_replicate status n j .unknown

/-- The entries that the call looks up are right, so it gives what a new object gives. -/
lemma call_eq_of_names {s : List Char} {words : List (List Char)}
    (h : ∀ j, LooksUp s words j → (Env.of s words).Names j (status.getD j .unknown)) :
    (call status s words).map Prod.fst = (call [] s words).map Prod.fst := by
  rw [call_fst_eq_iff, resize_nil, entry_replicate]
  refine Or.inr (Or.inr (windows_congr fun j hj => ?_))
  apply entry_eq_of_names (nodup_wordsetstr words)
  rw [getD_resize]
  by_cases hlt : j < s.length
  · rw [if_pos hlt]
    exact h j hj
  · rw [if_neg hlt]
    trivial

/-- What a call can write at position `j`: the index of a word that stands there, or that there is
none. -/
def Env.Puts (e : Env) (j : ℕ) : Status → Prop
  | .unknown => False
  | .noMatch => e.chunk j ∉ e.words
  | .word k => k < e.words.length ∧ e.Occurs k j

/-- When the words have one length a call writes only what is right for it. -/
lemma Env.WF.names_of_puts (he : e.WF) {x : Status} (h : e.Puts j x) : e.Names j x := by
  cases x with
  | unknown => trivial
  | noMatch => exact h
  | word k => exact (he.prefix_iff h.1).mp h.2.2

/-- Every entry is an old one or has been written by the call. -/
structure Env.Wrote (e : Env) (old new : List Status) : Prop where
  length : new.length = old.length
  entries : ∀ j, new.getD j .unknown = old.getD j .unknown ∨ e.Puts j (new.getD j .unknown)

lemma Env.Wrote.refl (e : Env) (status : List Status) : e.Wrote status status :=
  ⟨rfl, fun _ => Or.inl rfl⟩

lemma Env.Wrote.trans {a b c : List Status} (h : e.Wrote a b) (h' : e.Wrote b c) : e.Wrote a c := by
  refine ⟨h'.length.trans h.length, fun j => ?_⟩
  rcases h'.entries j with heq | hputs
  · rw [heq]
    exact h.entries j
  · exact Or.inr hputs

lemma wrote_set {x : Status} (h : i < status.length → e.Puts i x) :
    e.Wrote status (status.set i x) := by
  refine ⟨List.length_set, fun j => ?_⟩
  rw [Library.getD_set]
  by_cases hij : i = j ∧ i < status.length
  · rw [if_pos hij]
    obtain ⟨rfl, hi⟩ := hij
    exact Or.inr (h hi)
  · rw [if_neg hij]
    exact Or.inl rfl

lemma search_wrote (hi : i < e.s.length) (wordset : List ℕ) :
    e.Wrote status (search e i wordset status).2 := by
  unfold search
  cases status.getD i .unknown with
  | noMatch => exact .refl e status
  | word k => exact .refl e status
  | unknown =>
    dsimp only
    split
    · rename_i hmem
      refine wrote_set fun _ => ⟨List.idxOf_lt_length_iff.mpr hmem, hi, ?_⟩
      rw [getD_eq_of_getElem? (getElem?_idxOf hmem)]
      exact List.take_prefix _ _
    · rename_i hmem
      exact wrote_set fun _ => hmem

lemma find_wrote (e : Env) (i j : ℕ) (wordset : List ℕ) (m : Memo) :
    e.Wrote m.status (find e i j wordset m).status := by
  induction hn : wordset.length using Nat.strongRecOn generalizing wordset j m with
  | ind n ih =>
    by_cases hne : wordset = []
    · rw [hne, find_nil]
      exact .refl e _
    by_cases hj : j < e.s.length
    · have hwrote : e.Wrote m.status (search e j wordset m.status).2 := search_wrote hj wordset
      cases hsearch : search e j wordset m.status with
      | mk taken status =>
        rw [hsearch] at hwrote
        cases taken with
        | none =>
          rw [find_of_search_none hne hj hsearch]
          exact hwrote
        | some ws =>
          rw [find_of_search_some hne hj hsearch]
          have hlt := length_search e hsearch
          exact hwrote.trans (ih ws.length (by omega) _ ws ⟨status, m.result⟩ rfl)
    · have hlength : wordset.length ≠ 0 := fun h => hne (List.eq_nil_of_length_eq_zero h)
      rw [find, if_neg hlength, if_pos (Nat.le_of_not_lt hj)]
      exact .refl e _

lemma occurrences_wrote (hi : i < e.words.length) (total : ℕ) (wordset : List ℕ) (pos : ℕ) (m : Memo)
    (hlen : m.status.length = e.s.length) :
    e.Wrote m.status (occurrences e total wordset i pos m).status := by
  induction hn : e.s.length + 1 - pos using Nat.strongRecOn generalizing pos m with
  | ind n ih =>
    rw [occurrences]
    split
    · exact .refl e _
    · rename_i q hfind
      obtain ⟨hq, hqs, hpre, -⟩ := strFind_eq_some hfind
      split
      · exact .refl e _
      · have hset : e.Wrote m.status (m.status.set q (.word i)) :=
          wrote_set fun hlt => ⟨hi, by rwa [hlen] at hlt, hpre⟩
        have hfound := find_wrote e q (q + e.wordLen) (wordset.erase i) ⟨m.status.set q (.word i), m.result⟩
        have hwrote := hset.trans hfound
        exact hwrote.trans (ih _ (by omega) (q + 1) _ (hwrote.length.trans hlen) rfl)

lemma loops_wrote (total : ℕ) (wordset : List ℕ) (hlen : status.length = e.s.length) {n : ℕ}
    (hn : n ≤ e.words.length) : e.Wrote status (loops e total wordset n ⟨status, []⟩).status := by
  induction n with
  | zero => exact .refl e status
  | succ n ih =>
    have hwrote := ih (by omega)
    rw [loops_succ]
    exact hwrote.trans (occurrences_wrote hn total wordset 0 _ (hwrote.length.trans hlen))

lemma call_wrote {s : List Char} {words : List (List Char)} {r : List ℕ} {new : List Status}
    (hne : words ≠ []) (h : call status s words = some (r, new)) :
    (Env.of s words).Wrote (resize status s.length) new := by
  have hlength : words.length ≠ 0 := fun h => hne (List.eq_nil_of_length_eq_zero h)
  rw [call, if_neg hlength] at h
  split at h
  · cases h
  · obtain ⟨-, rfl⟩ := Prod.mk.inj (Option.some.inj h)
    exact loops_wrote _ _ (length_resize status s.length) (Nat.le_refl _)

/-- One of the calls can have written `x` at `j`, and no call since then has cut `status_` off before
`j`. -/
def Left (calls : List (List Char × List (List Char))) (j : ℕ) (x : Status) : Prop :=
  ∃ pre c post, calls = pre ++ c :: post ∧ c.2 ≠ [] ∧ (Env.of c.1 c.2).Puts j x ∧
    ∀ c' ∈ c :: post, c'.2 ≠ [] → j < c'.1.length

lemma Left.append {calls : List (List Char × List (List Char))} {x : Status} (h : Left calls j x)
    {c : List Char × List (List Char)} (hc : c.2 ≠ [] → j < c.1.length) : Left (calls ++ [c]) j x := by
  obtain ⟨pre, c₀, post, rfl, hne, hputs, hkept⟩ := h
  refine ⟨pre, c₀, post ++ [c], by rw [List.append_assoc]; rfl, hne, hputs, ?_⟩
  rw [← List.cons_append, List.forall_mem_append]
  exact ⟨hkept, by simpa using hc⟩

lemma after_append_singleton {calls : List (List Char × List (List Char))}
    {c : List Char × List (List Char)} (h : after (calls ++ [c]) = some status) :
    ∃ old r, after calls = some old ∧ call old c.1 c.2 = some (r, status) := by
  rw [after, List.foldlM_append] at h
  obtain ⟨old, hold, hc⟩ := Option.bind_eq_some_iff.mp h
  obtain ⟨new, hmap, hnew⟩ := Option.bind_eq_some_iff.mp hc
  obtain ⟨⟨r, new'⟩, hcall, rfl⟩ := Option.map_eq_some_iff.mp hmap
  obtain rfl := Option.some.inj hnew
  exact ⟨old, r, hold, hcall⟩

/-- Every entry of `status_` is unknown or has been left by one of the calls. -/
lemma left_of_after {calls : List (List Char × List (List Char))} (h : after calls = some status)
    (j : ℕ) : status.getD j .unknown = .unknown ∨ Left calls j (status.getD j .unknown) := by
  induction calls using List.reverseRecOn generalizing status with
  | nil =>
    obtain rfl := Option.some.inj h
    exact Or.inl rfl
  | append_singleton calls c ih =>
    obtain ⟨old, r, hold, hcall⟩ := after_append_singleton h
    by_cases hne : c.2 = []
    · -- a call for no words leaves the object as it is
      rw [call, hne, if_pos List.length_nil] at hcall
      obtain ⟨-, rfl⟩ := Prod.mk.inj (Option.some.inj hcall)
      exact (ih hold).imp_right fun hleft => hleft.append fun h => absurd hne h
    · have hwrote := call_wrote hne hcall
      rcases hwrote.entries j with heq | hputs
      · rw [heq, getD_resize]
        by_cases hj : j < c.1.length
        · rw [if_pos hj]
          exact (ih hold).imp_right fun hleft => hleft.append fun _ => hj
        · exact Or.inl (if_neg hj)
      · refine Or.inr ⟨calls, c, [], rfl, hne, hputs, ?_⟩
        intro c' hc' _
        obtain rfl := List.mem_singleton.mp hc'
        by_contra hge
        have hlength := hwrote.length.trans (length_resize old c'.1.length)
        rw [List.getD_eq_getElem?_getD, List.getElem?_eq_none (by omega)] at hputs
        exact hputs

/-- A call of `firstMissingPositive` is right, after any calls on the same object, except when an
earlier call has marked the answer and no later one was too short to keep the mark. After any calls of
`findSubstring` on the same object a call gives what a new object gives when every entry of `status_`
that it looks up is unknown, or names the word that stands there, or says that there is none; so it does
when whatever the earlier calls can have left at these positions is right for this call. -/
theorem solutions_after_calls (calls : List (List ℤ)) (nums : List ℤ)
    (calls' : List (List Char × List (List Char))) (status : List Status)
    (hafter : after calls' = some status) (s : List Char) (words : List (List Char)) :
    (Leetcode41.LeastMissing nums
        (Leetcode41.firstMissingPositive (Leetcode41.after calls) nums).1 ↔
      ∀ m, Leetcode41.LeastMissing nums m → ¬Leetcode41.Stale calls nums m) ∧
    ((∀ j, LooksUp s words j → (Env.of s words).Names j (status.getD j .unknown)) →
      (call status s words).map Prod.fst = (call [] s words).map Prod.fst) ∧
    ((∀ j, LooksUp s words j → ∀ x, Left calls' j x → (Env.of s words).Names j x) →
      (call status s words).map Prod.fst = (call [] s words).map Prod.fst) := by
  refine ⟨Leetcode41.call_right_iff calls nums, call_eq_of_names, fun h => call_eq_of_names ?_⟩
  intro j hj
  rcases left_of_after hafter j with hunknown | hleft
  · rw [hunknown]
    trivial
  · exact h j hj _ hleft

/-- The call for twice the word `a` and two characters is one call of `find`. -/
lemma call_of_find {c : Char} {status : List Status} {m : Memo}
    (hrest : find ⟨['a', c], [['a']], 1⟩ 0 1 [0] ⟨(resize status 2).set 0 (.word 0), []⟩ = m) :
    call status ['a', c] [['a'], ['a']] = some (m.result, m.status) := by
  have henv : Env.of ['a', c] [['a'], ['a']] = ⟨['a', c], [['a']], 1⟩ := by
    simp [Env.of, wordsetstr]
  have hint : wordsetint ⟨['a', c], [['a']], 1⟩ [['a'], ['a']] = [0, 0] := by simp [wordsetint]
  have hinside : ¬WritesOutside ['a', c] [['a'], ['a']] := by simp [WritesOutside]
  have hlimit : sizeSub ['a', c].length 2 = 0 := rfl
  have hloop : occurrences ⟨['a', c], [['a']], 1⟩ 2 [0, 0] 0 0 ⟨resize status 2, []⟩ = m := by
    have hfind : strFind ['a', c] ['a'] 0 = some 0 := rfl
    rw [occurrences]
    split
    · rename_i heq
      cases hfind.symm.trans heq
    · rename_i p heq
      obtain rfl := Option.some.inj (hfind.symm.trans heq)
      rw [hlimit, if_neg (Nat.lt_irrefl 0)]
      refine (congrArg _ hrest).trans ?_
      rw [occurrences]
      split
      · rfl
      · rename_i q hq
        rw [hlimit, if_pos (Nat.lt_of_succ_le (strFind_eq_some hq).1)]
  rw [call, if_neg (by simp), if_neg hinside]
  simp only [henv, hint]
  exact congrArg (fun m : Memo => some (m.result, m.status)) hloop

lemma after_ab : after [(['a', 'b'], [['a'], ['a']])] = some [.word 0, .noMatch] := by
  have hcall : call [] ['a', 'b'] [['a'], ['a']] = some ([], [.word 0, .noMatch]) :=
    call_of_find (find_of_search_none (by simp) (by simp) rfl)
  rw [after, List.foldlM_cons, hcall]
  rfl

/-- The same call again: it looks up position 1, where the first one has found no word. -/
theorem solutions_after_calls_ab :
    (Leetcode41.LeastMissing [2] (Leetcode41.firstMissingPositive (Leetcode41.after [[5]]) [2]).1 ↔
      ∀ m, Leetcode41.LeastMissing [2] m → ¬Leetcode41.Stale [[5]] [2] m) ∧
    after [(['a', 'b'], [['a'], ['a']])] = some [.word 0, .noMatch] ∧
    LooksUp ['a', 'b'] [['a'], ['a']] 1 ∧
    (call [.word 0, .noMatch] ['a', 'b'] [['a'], ['a']]).map Prod.fst =
      (call [] ['a', 'b'] [['a'], ['a']]).map Prod.fst := by
  have henv : Env.of ['a', 'b'] [['a'], ['a']] = ⟨['a', 'b'], [['a']], 1⟩ := by
    simp [Env.of, wordsetstr]
  have hlast : lastStart ['a', 'b'] [['a'], ['a']] = 0 := by rw [lastStart, henv]; rfl
  obtain ⟨h41, -, h30⟩ :=
    solutions_after_calls [[5]] [2] _ _ after_ab ['a', 'b'] [['a'], ['a']]
  refine ⟨h41, after_ab, ?_, h30 ?_⟩
  · unfold LooksUp
    rw [henv, hlast]
    refine ⟨0, by decide, 0, Nat.le_refl 0, by decide, ?_, [], List.nil_subperm, ?_, trivial, rfl,
      by decide⟩
    · exact fun h => absurd h.1 (by decide)
    · simp [wordsetint]
  · rintro j - x ⟨pre, c, post, hcalls, -, hputs, -⟩
    obtain ⟨rfl, rfl, rfl⟩ : pre = [] ∧ c = (['a', 'b'], [['a'], ['a']]) ∧ post = [] := by
      cases pre with
      | nil => simpa [eq_comm] using hcalls
      | cons _ pre => simp at hcalls
    have hwf : (Env.of ['a', 'b'] [['a'], ['a']]).WF := Env.of_wf (by simp) Nat.one_pos (by simp)
    exact hwf.names_of_puts hputs

/-- After `firstMissingPositive([1])` the call for `[5]` returns 2. After `findSubstring` of twice
the word `a` in `ab` the call for `aa` finds nothing. -/
theorem earlier_calls_change_results :
    (Leetcode41.LeastMissing [5] 1 ∧
      (Leetcode41.firstMissingPositive (Leetcode41.after [[1]]) [5]).1 = 2) ∧
    after [(['a', 'b'], [['a'], ['a']])] = some [.word 0, .noMatch] ∧
    call [.word 0, .noMatch] ['a', 'a'] [['a'], ['a']] = some ([], [.word 0, .noMatch]) ∧
    call [] ['a', 'a'] [['a'], ['a']] = some ([0], [.word 0, .word 0]) := by
  refine ⟨⟨⟨by decide, by decide, fun k hk hlt => by omega⟩, by decide⟩, after_ab, ?_, ?_⟩
  · exact call_of_find (find_of_search_none (by simp) (by simp) rfl)
  · refine call_of_find ((find_of_search_some (by simp) (by simp) ?_).trans (find_nil _ _ _ _))
    rfl

end CodeC.Leetcode30
