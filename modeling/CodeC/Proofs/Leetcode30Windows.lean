import CodeC.Proofs.Leetcode30Entries
import Mathlib.Data.List.Nodup

/-!
# `findSubstring` finds the windows made of all words

The words have one length, so the word at a position is determined by the next characters, the
entries that the loops write are those that stood there before, and the search that takes the words
one by one misses no order of them.
-/

namespace CodeC.Leetcode30

/-- The words are different and have the length `word_len_`. -/
structure Env.WF (e : Env) : Prop where
  nodup : e.words.Nodup
  length_eq : ∀ w ∈ e.words, w.length = e.wordLen
  pos : 0 < e.wordLen

/-- The words with these indices, in some order, stand from position `j` on. -/
def Matches (e : Env) (wordset : List ℕ) (j : ℕ) : Prop :=
  ∃ ks : List ℕ, ks.Perm wordset ∧ (ks.map fun k => e.words.getD k []).flatten <+: e.s.drop j

variable {e : Env} {wordset : List ℕ} {i j k : ℕ}

lemma getD_eq_of_getElem? {w : List Char} (h : e.words[k]? = some w) : e.words.getD k [] = w := by
  rw [List.getD_eq_getElem?_getD, h, Option.getD_some]

lemma idxOf_eq (hnodup : e.words.Nodup) {w : List Char} (h : e.words[k]? = some w) :
    e.words.idxOf w = k := by
  obtain ⟨hk, rfl⟩ := List.getElem?_eq_some_iff.mp h
  exact hnodup.idxOf_getElem k hk

lemma getElem?_idxOf {w : List Char} (h : w ∈ e.words) : e.words[e.words.idxOf w]? = some w := by
  rw [List.getElem?_eq_getElem (List.idxOf_lt_length_iff.mpr h), List.getElem_idxOf]

lemma Env.WF.eq_chunk_of_prefix (he : e.WF) {w r : List Char} (hw : w ∈ e.words)
    (h : w ++ r <+: e.s.drop j) : w = e.chunk j ∧ r <+: e.s.drop (j + e.wordLen) := by
  obtain ⟨t, ht⟩ := h
  rw [Env.chunk, ← List.drop_drop, ← ht, ← he.length_eq w hw, List.append_assoc]
  simp

lemma drop_eq_chunk_append (e : Env) (j : ℕ) :
    e.s.drop j = e.chunk j ++ e.s.drop (j + e.wordLen) := by
  rw [Env.chunk, ← List.drop_drop, List.take_append_drop]

lemma Env.WF.lt_length (he : e.WF) (h : e.chunk j ∈ e.words) : j < e.s.length := by
  have hlen := he.length_eq _ h
  have hpos := he.pos
  rw [Env.chunk, List.length_take, List.length_drop] at hlen
  omega

/-- What a match begins with. -/
lemma matches_iff (he : e.WF) (hne : wordset ≠ []) (hlt : ∀ k ∈ wordset, k < e.words.length) :
    Matches e wordset j ↔ ∃ k ∈ wordset, e.words[k]? = some (e.chunk j) ∧
      Matches e (wordset.erase k) (j + e.wordLen) := by
  constructor
  · rintro ⟨ks, hperm, hpre⟩
    cases ks with
    | nil => exact absurd hperm.symm.eq_nil hne
    | cons k ks =>
      have hk : k ∈ wordset := hperm.mem_iff.mp (by simp)
      have hk' : k < e.words.length := hlt k hk
      have hget : e.words[k]? = some e.words[k] := List.getElem?_eq_getElem hk'
      rw [List.map_cons, List.flatten_cons, getD_eq_of_getElem? hget] at hpre
      obtain ⟨hchunk, hrest⟩ := he.eq_chunk_of_prefix (List.getElem_mem hk') hpre
      exact ⟨k, hk, hchunk ▸ hget, ks, (List.cons_perm_iff_perm_erase.mp hperm).2, hrest⟩
  · rintro ⟨k, hk, hget, ks, hperm, hpre⟩
    refine ⟨k :: ks, List.cons_perm_iff_perm_erase.mpr ⟨hk, hperm⟩, ?_⟩
    rw [List.map_cons, List.flatten_cons, getD_eq_of_getElem? hget, drop_eq_chunk_append e j]
    exact (List.prefix_append_right_inj _).mpr hpre

lemma Env.WF.prefix_iff (he : e.WF) (hi : i < e.words.length) {p : ℕ} :
    e.words.getD i [] <+: e.s.drop p ↔ e.words[i]? = some (e.chunk p) := by
  have hget : e.words[i]? = some e.words[i] := List.getElem?_eq_getElem hi
  rw [getD_eq_of_getElem? hget]
  constructor
  · intro h
    rw [hget, ← (he.eq_chunk_of_prefix (r := []) (List.getElem_mem hi) (by simpa using h)).1]
  · intro h
    rw [hget] at h
    rw [Option.some.inj h, drop_eq_chunk_append e p]
    exact List.prefix_append _ _

lemma Env.WF.length_flatten (he : e.WF) {ks : List ℕ} (hks : ∀ k ∈ ks, k < e.words.length) :
    (ks.map fun k => e.words.getD k []).flatten.length = ks.length * e.wordLen := by
  induction ks with
  | nil => simp
  | cons k ks ih =>
    have hk : k < e.words.length := hks k (by simp)
    have hlen : (e.words.getD k []).length = e.wordLen := by
      rw [getD_eq_of_getElem? (List.getElem?_eq_getElem hk)]
      exact he.length_eq _ (List.getElem_mem hk)
    rw [List.map_cons, List.flatten_cons, List.length_append, hlen,
      ih fun j hj => hks j (by simp [hj]), List.length_cons, Nat.succ_mul, Nat.add_comm]

/-- At `p` stands the word `i`, and the rest of the words follows. -/
def Starts (e : Env) (wordset : List ℕ) (i p : ℕ) : Prop :=
  e.words[i]? = some (e.chunk p) ∧ Matches e (wordset.erase i) (p + e.wordLen)

/-- The whole window lies in the string. -/
lemma Starts.add_le (he : e.WF) (hlt : ∀ k ∈ wordset, k < e.words.length) (hi : i ∈ wordset) {p : ℕ}
    (h : Starts e wordset i p) : p + wordset.length * e.wordLen ≤ e.s.length := by
  obtain ⟨hget, ks, hperm, hpre⟩ := h
  have hchunk := he.length_eq _ (List.mem_of_getElem? hget)
  have hks : ∀ k ∈ ks, k < e.words.length :=
    fun k hk => hlt k (List.mem_of_mem_erase (hperm.mem_iff.mp hk))
  have hlen := hpre.length_le
  have hsize : wordset.length = ks.length + 1 := by
    rw [hperm.length_eq, List.length_erase_of_mem hi]
    have := List.length_pos_of_mem hi
    omega
  rw [he.length_flatten hks, List.length_drop] at hlen
  rw [Env.chunk, List.length_take, List.length_drop] at hchunk
  rw [hsize, Nat.succ_mul]
  have := he.pos
  omega

lemma Starts.occurs (he : e.WF) (hi : i < e.words.length) {p : ℕ} (h : Starts e wordset i p) :
    e.words.getD i [] <+: e.s.drop p := (he.prefix_iff hi).mpr h.1

variable {limit pos : ℕ}

lemma trueEntry_eq_some_iff (hnodup : e.words.Nodup) :
    e.trueEntry j = some k ↔ e.words[k]? = some (e.chunk j) := by
  unfold Env.trueEntry
  rw [idxOf?_eq]
  constructor
  · intro h
    split at h
    · rename_i hmem
      obtain rfl := Option.some.inj h
      exact getElem?_idxOf hmem
    · cases h
  · intro h
    rw [if_pos (List.mem_of_getElem? h), idxOf_eq hnodup h]

/-- What the loops write is right. -/
lemma Env.WF.trueEntry_of_occurs (he : e.WF) (hi : i < e.words.length) (h : e.Occurs i j) :
    e.trueEntry j = some i :=
  (trueEntry_eq_some_iff he.nodup).mpr ((he.prefix_iff hi).mp h.2)

lemma Env.WF.afterWords_trueEntry (he : e.WF) {n : ℕ} (hn : n ≤ e.words.length) :
    e.afterWords limit e.trueEntry n = e.trueEntry := by
  induction n with
  | zero => rfl
  | succ n ih =>
    funext j
    rw [Env.afterWords, ih (by omega)]
    split
    · rename_i hocc
      exact (he.trueEntry_of_occurs hn hocc.1).symm
    · rfl

lemma Env.WF.during_trueEntry (he : e.WF) (hi : i < e.words.length) :
    e.during limit e.trueEntry i pos = e.trueEntry := by
  funext j
  rw [Env.during, he.afterWords_trueEntry (Nat.le_of_lt hi)]
  split
  · rename_i hocc
    exact (he.trueEntry_of_occurs hi hocc.1).symm
  · rfl

lemma Env.WF.follows_trueEntry (he : e.WF) (hlt : ∀ k ∈ wordset, k < e.words.length) :
    e.Follows e.trueEntry wordset j ↔ Matches e wordset j := by
  induction hn : wordset.length generalizing wordset j with
  | zero =>
    obtain rfl := List.eq_nil_of_length_eq_zero hn
    exact iff_of_true follows_nil ⟨[], List.Perm.refl [], List.nil_prefix⟩
  | succ n ih =>
    have hne : wordset ≠ [] := by
      rintro rfl
      cases hn
    have hrest : ∀ k ∈ wordset, e.Follows e.trueEntry (wordset.erase k) (j + e.wordLen) ↔
        Matches e (wordset.erase k) (j + e.wordLen) := by
      intro k hk
      apply ih fun k' hk' => hlt k' (List.mem_of_mem_erase hk')
      rw [List.length_erase_of_mem hk, hn]
      rfl
    rw [follows_iff hne, matches_iff he hne hlt]
    constructor
    · rintro ⟨-, k, hk, hentry, hfollows⟩
      exact ⟨k, hk, (trueEntry_eq_some_iff he.nodup).mp hentry, (hrest k hk).mp hfollows⟩
    · rintro ⟨k, hk, hget, hmatch⟩
      exact ⟨he.lt_length (List.mem_of_getElem? hget), k, hk,
        (trueEntry_eq_some_iff he.nodup).mpr hget, (hrest k hk).mpr hmatch⟩

/-- At one position stands one word. -/
lemma Env.WF.occurs_unique (he : e.WF) {i' p : ℕ} (hi : i < e.words.length)
    (hi' : i' < e.words.length) (h : e.Occurs i p) (h' : e.Occurs i' p) : i = i' := by
  have heq := (he.trueEntry_of_occurs hi h).symm.trans (he.trueEntry_of_occurs hi' h')
  exact Option.some.inj heq

lemma nodup_wordsetstr (words : List (List Char)) : (wordsetstr words).Nodup :=
  (List.mergeSort_perm _ _).nodup_iff.mpr (List.nodup_dedup _)

section words

variable {s : List Char} {words : List (List Char)} {len : ℕ}

lemma Env.of_wf (hne : words ≠ []) (hpos : 0 < len) (hlen : ∀ w ∈ words, w.length = len) :
    (Env.of s words).WF := by
  have hlast : (words.getLastD []).length = len := by
    rw [List.getLastD_eq_getLast?, List.getLast?_eq_getLast_of_ne_nil hne, Option.getD_some]
    exact hlen _ (List.getLast_mem hne)
  refine ⟨nodup_wordsetstr words, fun w hw => ?_, ?_⟩
  · exact (hlen w (mem_wordsetstr.mp hw)).trans hlast.symm
  · exact Nat.lt_of_lt_of_eq hpos hlast.symm

/-- Every index of `words_` is the index of a word. -/
lemma mem_wordsetint (he : (Env.of s words).WF) {k : ℕ} :
    k ∈ wordsetint (Env.of s words) words ↔ k < (Env.of s words).words.length := by
  rw [wordsetint, List.mem_map]
  constructor
  · rintro ⟨w, hw, rfl⟩
    exact List.idxOf_lt_length_iff.mpr (mem_wordsetstr.mpr hw)
  · intro hk
    exact ⟨_, mem_wordsetstr.mp (List.getElem_mem hk), idxOf_eq he.nodup (List.getElem?_eq_getElem hk)⟩

/-- A match of all indices is a permutation of the words. -/
lemma matches_wordsetint {p : ℕ} :
    Matches (Env.of s words) (wordsetint (Env.of s words) words) p ↔
      ∃ ws : List (List Char), ws.Perm words ∧ ws.flatten <+: s.drop p := by
  have hback : ∀ ws : List (List Char), (∀ w ∈ ws, w ∈ words) →
      (wordsetint (Env.of s words) ws).map (fun k => (Env.of s words).words.getD k []) = ws := by
    intro ws hws
    rw [wordsetint, List.map_map]
    refine (List.map_congr_left fun w hw => ?_).trans (List.map_id ws)
    exact getD_eq_of_getElem? (getElem?_idxOf (mem_wordsetstr.mpr (hws w hw)))
  constructor
  · rintro ⟨ks, hperm, hpre⟩
    refine ⟨_, ?_, hpre⟩
    have hmap := hperm.map fun k => (Env.of s words).words.getD k []
    rwa [hback words fun _ hw => hw] at hmap
  · rintro ⟨ws, hperm, hpre⟩
    refine ⟨wordsetint (Env.of s words) ws, hperm.map _, ?_⟩
    rwa [hback ws fun w hw => hperm.mem_iff.mp hw]

lemma window_trueEntry_iff (he : (Env.of s words).WF) {p : ℕ}
    (hi : i < (Env.of s words).words.length) (hocc : (Env.of s words).Occurs i p)
    (hp : p ≤ lastStart s words) :
    (Env.of s words).Window (lastStart s words) (wordsetint (Env.of s words) words)
        (Env.of s words).trueEntry i p ↔
      Matches (Env.of s words) ((wordsetint (Env.of s words) words).erase i)
        (p + (Env.of s words).wordLen) := by
  rw [Env.Window, he.during_trueEntry hi,
    he.follows_trueEntry fun k hk => (mem_wordsetint he).mp (List.mem_of_mem_erase hk)]
  exact ⟨fun h => h.2.2, fun h => ⟨hocc, hp, h⟩⟩

/-- Words of one length leave no room for a position outside `status_`. -/
lemma not_writesOutside {len : ℕ} (hpos : 0 < len) (hlen : ∀ w ∈ words, w.length = len) :
    ¬WritesOutside s words := by
  rintro ⟨hnil, -⟩
  have := hlen [] hnil
  rw [List.length_nil] at this
  omega

lemma findSubstring_eq_windows {len : ℕ} (hne : words ≠ []) (hpos : 0 < len)
    (hlen : ∀ w ∈ words, w.length = len) :
    findSubstring s words = windows s words (Env.of s words).trueEntry := by
  have hinside := not_writesOutside (s := s) hpos hlen
  have hnew := call_new hinside
  rw [call_fst hne hinside, resize_nil, entry_replicate] at hnew
  exact (Option.some.inj hnew).symm

/-- Different words start at different positions. -/
lemma nodup_windows (he : (Env.of s words).WF) (entry : ℕ → Option ℕ) :
    (windows s words entry).Nodup := by
  rw [windows, Env.windowsUpTo, List.nodup_flatMap]
  refine ⟨fun i _ => List.nodup_range.filter _, ?_⟩
  refine List.nodup_range.imp_of_mem fun {i i'} hi hi' hii' => ?_
  intro p hp hp'
  simp only [List.mem_filter, decide_eq_true_eq] at hp hp'
  exact hii' (he.occurs_unique (List.mem_range.mp hi) (List.mem_range.mp hi') hp.2.1 hp'.2.1)

lemma mem_windows_trueEntry (he : (Env.of s words).WF) {p : ℕ} :
    p ∈ windows s words (Env.of s words).trueEntry ↔ ∃ i < (Env.of s words).words.length,
      Starts (Env.of s words) (wordsetint (Env.of s words) words) i p := by
  rw [mem_windows]
  constructor
  · rintro ⟨i, hi, hw⟩
    exact ⟨i, hi, (he.prefix_iff hi).mp hw.1.2, (window_trueEntry_iff he hi hw.1 hw.2.1).mp hw⟩
  · rintro ⟨i, hi, hstart⟩
    have hle : p + words.length * (Env.of s words).wordLen ≤ s.length := by
      have hadd := hstart.add_le he (fun k => (mem_wordsetint he).mp) ((mem_wordsetint he).mpr hi)
      rwa [wordsetint, List.length_map] at hadd
    have hocc : (Env.of s words).Occurs i p :=
      ⟨he.lt_length (List.mem_of_getElem? hstart.1), hstart.occurs he hi⟩
    have hp : p ≤ lastStart s words := by
      rw [lastStart, sizeSub, if_pos (Nat.le_of_add_left_le hle)]
      exact Nat.le_sub_of_add_le hle
    exact ⟨i, hi, (window_trueEntry_iff he hi hocc hp).mpr hstart.2⟩

/-- The start positions of the windows, each once. -/
theorem findSubstring_windows (s : List Char) (words : List (List Char)) (len : ℕ)
    (hne : words ≠ []) (hpos : 0 < len) (hlen : ∀ w ∈ words, w.length = len) :
    (findSubstring s words).Nodup ∧ ∀ p, p ∈ findSubstring s words ↔
      ∃ ws : List (List Char), ws.Perm words ∧ ws.flatten <+: s.drop p := by
  have he : (Env.of s words).WF := Env.of_wf hne hpos hlen
  have hwne : wordsetint (Env.of s words) words ≠ [] := by
    rw [wordsetint]
    simpa using hne
  rw [findSubstring_eq_windows hne hpos hlen]
  refine ⟨nodup_windows he _, fun p => ?_⟩
  rw [mem_windows_trueEntry he, ← matches_wordsetint,
    matches_iff he hwne fun k => (mem_wordsetint he).mp]
  constructor
  · rintro ⟨i, hi, hstart⟩
    exact ⟨i, (mem_wordsetint he).mpr hi, hstart⟩
  · rintro ⟨k, hk, hstart⟩
    exact ⟨k, (mem_wordsetint he).mp hk, hstart⟩

theorem findSubstring_windows_abba :
    (findSubstring ['a', 'b', 'b', 'a'] [['a'], ['b']]).Nodup ∧
      2 ∈ findSubstring ['a', 'b', 'b', 'a'] [['a'], ['b']] := by
  obtain ⟨hnodup, hmem⟩ := findSubstring_windows ['a', 'b', 'b', 'a'] [['a'], ['b']] 1
    (by decide) (by decide) (by decide)
  exact ⟨hnodup, (hmem 2).mpr ⟨[['b'], ['a']], List.Perm.swap _ _ _, by decide⟩⟩

end words

end CodeC.Leetcode30
