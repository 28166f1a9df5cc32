import CodeC.Leetcode30
import CodeC.Library.Occurrence
import CodeC.Library.Vector
import Mathlib.Data.List.Perm.Basic
import Mathlib.Data.List.Sort

/-!
# The entries of `status_`

What a call of `findSubstring` does depends on the member `status_` through its entries only: an
entry that is not known is what `search` computes for it, and the loop over the words overwrites the
entries at the occurrences it has come to. The result of a call is described by the entries it
begins with, for all words and whatever they hold.
-/

namespace CodeC.Leetcode30
open Library

/-- The word at position `j` as `search` takes it from `status_` -/
def Env.entry (e : Env) (status : List Status) (j : ℕ) : Option ℕ :=
  match status.getD j .unknown with
  | .noMatch => none
  | .word k => some k
  | .unknown => e.words.idxOf? (e.chunk j)

variable {e : Env} {wordset : List ℕ} {i j k : ℕ} {status : List Status}

lemma idxOf?_eq (words : List (List Char)) (w : List Char) :
    words.idxOf? w = if w ∈ words then some (words.idxOf w) else none := by
  split
  · rename_i hmem
    obtain ⟨k, hk⟩ := Option.ne_none_iff_exists'.mp (mt List.idxOf?_eq_none_iff.mp (not_not.mpr hmem))
    rw [hk, List.idxOf_eq_getD_idxOf?, hk, Option.getD_some]
  · rename_i hmem
    exact List.idxOf?_eq_none_iff.mpr hmem

lemma entry_set_word (hi : i < status.length) (k : ℕ) :
    e.entry (status.set i (.word k)) = Function.update (e.entry status) i (some k) := by
  funext j
  unfold Env.entry
  rw [getD_set]
  by_cases hij : i = j
  · subst hij
    rw [if_pos ⟨rfl, hi⟩, Function.update_self]
  · rw [if_neg fun h => hij h.1, Function.update_of_ne (Ne.symm hij)]

/-- `search` looks at one entry and leaves all entries as they are. -/
lemma search_entry (e : Env) (i : ℕ) (wordset : List ℕ) (status : List Status) :
    (search e i wordset status).1 = (e.entry status i).bind (takeOne wordset) ∧
      (search e i wordset status).2.length = status.length ∧
      e.entry (search e i wordset status).2 = e.entry status := by
  cases hstatus : status.getD i .unknown with
  | noMatch => simp only [search, Env.entry, hstatus, Option.bind_none, and_self]
  | word k => simp only [search, Env.entry, hstatus, Option.bind_some, and_self]
  | unknown =>
    -- the entry that is written is the one that was computed
    have hset : ∀ x : Status, (match x with
        | .noMatch => none
        | .word k => some k
        | .unknown => e.entry status i) = e.entry status i →
        e.entry (status.set i x) = e.entry status := by
      intro x hx
      funext j
      by_cases hij : i = j ∧ i < status.length
      · obtain ⟨rfl, hi⟩ := hij
        rw [← hx]
        unfold Env.entry
        rw [getD_set, if_pos ⟨rfl, hi⟩]
        cases x with
        | unknown => rw [hstatus]
        | noMatch => rfl
        | word k => rfl
      · unfold Env.entry
        rw [getD_set, if_neg hij]
    have hentry : e.entry status i =
        if e.chunk i ∈ e.words then some (e.words.idxOf (e.chunk i)) else none := by
      unfold Env.entry
      rw [hstatus]
      exact idxOf?_eq e.words (e.chunk i)
    simp only [search, hstatus]
    by_cases hmem : e.chunk i ∈ e.words
    · rw [if_pos hmem] at hentry ⊢
      exact ⟨by rw [hentry, Option.bind_some], List.length_set, hset _ hentry.symm⟩
    · rw [if_neg hmem] at hentry ⊢
      exact ⟨by rw [hentry, Option.bind_none], List.length_set, hset _ hentry.symm⟩

/-- The entries from `j` on, one word after the other, are `ks`. -/
def Env.Reads (e : Env) (entry : ℕ → Option ℕ) : ℕ → List ℕ → Prop
  | _, [] => True
  | j, k :: ks => j < e.s.length ∧ entry j = some k ∧ e.Reads entry (j + e.wordLen) ks

/-- By the entries, the words of `wordset` stand from `j` on in some order. -/
def Env.Follows (e : Env) (entry : ℕ → Option ℕ) (wordset : List ℕ) (j : ℕ) : Prop :=
  ∃ ks : List ℕ, ks.Perm wordset ∧ e.Reads entry j ks

variable {entry : ℕ → Option ℕ}

lemma follows_nil : e.Follows entry [] j := ⟨[], List.Perm.refl [], trivial⟩

lemma follows_iff (hne : wordset ≠ []) : e.Follows entry wordset j ↔
    j < e.s.length ∧ ∃ k ∈ wordset, entry j = some k ∧
      e.Follows entry (wordset.erase k) (j + e.wordLen) := by
  constructor
  · rintro ⟨ks, hperm, hreads⟩
    cases ks with
    | nil => exact absurd hperm.symm.eq_nil hne
    | cons k ks =>
      obtain ⟨hk, hrest⟩ := List.cons_perm_iff_perm_erase.mp hperm
      exact ⟨hreads.1, k, hk, hreads.2.1, ks, hrest, hreads.2.2⟩
  · rintro ⟨hj, k, hk, hentry, ks, hperm, hreads⟩
    exact ⟨k :: ks, List.cons_perm_iff_perm_erase.mpr ⟨hk, hperm⟩, hj, hentry, hreads⟩

/-- The entry at `j` is the word that is taken. -/
lemma follows_iff_of_entry (hj : j < e.s.length) (hk : k ∈ wordset) (hentry : entry j = some k) :
    e.Follows entry wordset j ↔ e.Follows entry (wordset.erase k) (j + e.wordLen) := by
  rw [follows_iff (List.ne_nil_of_mem hk)]
  constructor
  · rintro ⟨-, k', -, hentry', hrest⟩
    obtain rfl := Option.some.inj (hentry.symm.trans hentry')
    exact hrest
  · exact fun hrest => ⟨hj, k, hk, hentry, hrest⟩

lemma bind_takeOne_eq_some {x : Option ℕ} {ws : List ℕ} (h : x.bind (takeOne wordset) = some ws) :
    ∃ k ∈ wordset, x = some k ∧ ws = wordset.erase k := by
  obtain ⟨k, hx, htake⟩ := Option.bind_eq_some_iff.mp h
  rw [takeOne] at htake
  split at htake
  · rename_i hk
    exact ⟨k, hk, hx, (Option.some.inj htake).symm⟩
  · cases htake

section find

variable {m : Memo} {status' : List Status}

lemma find_nil (e : Env) (i j : ℕ) (m : Memo) : find e i j [] m = ⟨m.status, m.result ++ [i]⟩ := by
  rw [find, if_pos List.length_nil]

lemma find_of_search_none (hne : wordset ≠ []) (hj : j < e.s.length)
    (h : search e j wordset m.status = (none, status')) :
    find e i j wordset m = ⟨status', m.result⟩ := by
  rw [find, if_neg fun h => hne (List.eq_nil_of_length_eq_zero h), if_neg (Nat.not_le_of_lt hj)]
  split
  · rename_i heq
    obtain ⟨-, rfl⟩ := Prod.ext_iff.mp (h.symm.trans heq)
    rfl
  · rename_i heq
    cases h.symm.trans heq

lemma find_of_search_some {ws : List ℕ} (hne : wordset ≠ []) (hj : j < e.s.length)
    (h : search e j wordset m.status = (some ws, status')) :
    find e i j wordset m = find e i (j + e.wordLen) ws ⟨status', m.result⟩ := by
  rw [find, if_neg fun h => hne (List.eq_nil_of_length_eq_zero h), if_neg (Nat.not_le_of_lt hj)]
  split
  · rename_i heq
    cases h.symm.trans heq
  · rename_i heq
    obtain ⟨hws, rfl⟩ := Prod.ext_iff.mp (h.symm.trans heq)
    obtain rfl := Option.some.inj hws
    rfl

end find

/-- `find` leaves all entries as they are and adds the start when they show that the words
follow. -/
lemma find_entry (e : Env) (i j : ℕ) (wordset : List ℕ) (m : Memo) :
    e.entry (find e i j wordset m).status = e.entry m.status ∧
      (find e i j wordset m).status.length = m.status.length ∧
      (e.Follows (e.entry m.status) wordset j →
        (find e i j wordset m).result = m.result ++ [i]) ∧
      (¬e.Follows (e.entry m.status) wordset j → (find e i j wordset m).result = m.result) := by
  induction hn : wordset.length generalizing wordset j m with
  | zero =>
    obtain rfl := List.eq_nil_of_length_eq_zero hn
    rw [find_nil]
    exact ⟨rfl, rfl, fun _ => rfl, fun hno => absurd follows_nil hno⟩
  | succ n ih =>
    have hne : wordset ≠ [] := by
      rintro rfl
      cases hn
    by_cases hj : j < e.s.length
    · obtain ⟨htake, hlen, hentry⟩ := search_entry e j wordset m.status
      cases hsearch : search e j wordset m.status with
      | mk taken status =>
        rw [hsearch] at htake hlen hentry
        cases taken with
        | none =>
          rw [find_of_search_none hne hj hsearch, follows_iff hne]
          refine ⟨hentry, hlen, fun h => ?_, fun _ => rfl⟩
          obtain ⟨-, k, hk, hjk, -⟩ := h
          rw [hjk, Option.bind_some, takeOne, if_pos hk] at htake
          cases htake
        | some ws =>
          obtain ⟨k, hk, hjk, rfl⟩ := bind_takeOne_eq_some htake.symm
          have hlength : (wordset.erase k).length = n := by
            rw [List.length_erase_of_mem hk, hn]
            rfl
          rw [find_of_search_some hne hj hsearch, follows_iff_of_entry hj hk hjk, ← hentry, ← hlen]
          exact ih (j + e.wordLen) (wordset.erase k) ⟨status, m.result⟩ hlength
    · rw [find, if_neg (by omega), if_pos (Nat.le_of_not_lt hj), follows_iff hne]
      exact ⟨rfl, rfl, fun h => absurd h.1 hj, fun _ => rfl⟩

lemma strFind_eq_none {s w : List Char} {pos p : ℕ} (h : strFind s w pos = none) (hp : pos ≤ p)
    (hps : p ≤ s.length) : ¬w <+: s.drop p :=
  findFrom_eq_none h hp hps

lemma strFind_eq_some {s w : List Char} {pos p : ℕ} (h : strFind s w pos = some p) :
    pos ≤ p ∧ p ≤ s.length ∧ w <+: s.drop p ∧ ∀ q, pos ≤ q → q < p → ¬w <+: s.drop q :=
  findFrom_eq_some_iff.mp h

/-- Word `i` stands at `p`. -/
def Env.Occurs (e : Env) (i p : ℕ) : Prop := p < e.s.length ∧ e.words.getD i [] <+: e.s.drop p

instance (e : Env) (i p : ℕ) : Decidable (e.Occurs i p) := inferInstanceAs (Decidable (_ ∧ _))

/-- The entries after the loops for the words before `i`, which write at the occurrences up to
`limit` -/
def Env.afterWords (e : Env) (limit : ℕ) (entry : ℕ → Option ℕ) : ℕ → ℕ → Option ℕ
  | 0, j => entry j
  | i + 1, j => if e.Occurs i j ∧ j ≤ limit then some i else e.afterWords limit entry i j

/-- The entries when the loop for word `i` has come to `pos` -/
def Env.during (e : Env) (limit : ℕ) (entry : ℕ → Option ℕ) (i pos j : ℕ) : Option ℕ :=
  if e.Occurs i j ∧ j ≤ limit ∧ j < pos then some i else e.afterWords limit entry i j

/-- By the entries that are read there, a window begins with word `i` at `p`. -/
def Env.Window (e : Env) (limit : ℕ) (wordset : List ℕ) (entry : ℕ → Option ℕ) (i p : ℕ) : Prop :=
  e.Occurs i p ∧ p ≤ limit ∧
    e.Follows (e.during limit entry i (p + 1)) (wordset.erase i) (p + e.wordLen)

variable {limit pos : ℕ}

lemma during_zero : e.during limit entry i 0 = e.afterWords limit entry i := by
  funext j
  exact if_neg fun h => Nat.not_lt_zero j h.2.2

/-- Nothing is written where the word does not stand. -/
lemma during_eq_of_no_occurrence {pos' : ℕ} (hle : pos ≤ pos')
    (h : ∀ q, pos ≤ q → q < pos' → q ≤ limit → ¬e.Occurs i q) :
    e.during limit entry i pos = e.during limit entry i pos' := by
  funext j
  unfold Env.during
  by_cases hj : e.Occurs i j ∧ j ≤ limit
  · by_cases hpos : j < pos
    · rw [if_pos ⟨hj.1, hj.2, hpos⟩, if_pos ⟨hj.1, hj.2, by omega⟩]
    · have hpos' : ¬j < pos' := fun hlt => h j (by omega) hlt hj.2 hj.1
      rw [if_neg fun h => hpos h.2.2, if_neg fun h => hpos' h.2.2]
  · rw [if_neg fun h => hj ⟨h.1, h.2.1⟩, if_neg fun h => hj ⟨h.1, h.2.1⟩]

/-- One more occurrence is written. -/
lemma during_succ (hocc : e.Occurs i pos) (hlimit : pos ≤ limit) :
    Function.update (e.during limit entry i pos) pos (some i) =
      e.during limit entry i (pos + 1) := by
  funext j
  unfold Env.during
  by_cases hj : j = pos
  · subst hj
    rw [Function.update_self, if_pos ⟨hocc, hlimit, Nat.lt_succ_self j⟩]
  · rw [Function.update_of_ne hj]
    have hiff : j < pos + 1 ↔ j < pos := by omega
    simp only [hiff]

lemma during_end (h : ∀ q, pos ≤ q → q ≤ limit → ¬e.Occurs i q) :
    e.during limit entry i pos = e.afterWords limit entry (i + 1) := by
  funext j
  unfold Env.during
  rw [Env.afterWords]
  by_cases hj : e.Occurs i j ∧ j ≤ limit
  · have hpos : j < pos := by
      by_contra hle
      exact h j (by omega) hj.2 hj.1
    rw [if_pos ⟨hj.1, hj.2, hpos⟩, if_pos hj]
  · rw [if_neg fun h => hj ⟨h.1, h.2.1⟩, if_neg hj]

/-- The loop for word `i` from `pos` on: the entries it leaves, and the windows it finds -/
structure Scanned (e : Env) (limit : ℕ) (wordset : List ℕ) (entry : ℕ → Option ℕ) (i pos : ℕ)
    (m m' : Memo) : Prop where
  entry_eq : e.entry m'.status = e.afterWords limit entry (i + 1)
  length_eq : m'.status.length = e.s.length
  result_eq : ∃ ps : List ℕ, m'.result = m.result ++ ps ∧ ps.Pairwise (· < ·) ∧
    ∀ p, p ∈ ps ↔ pos ≤ p ∧ e.Window limit wordset entry i p

/-- A loop that ends at once -/
lemma scanned_of_no_occurrence {m : Memo} (hlen : m.status.length = e.s.length)
    (hentry : e.entry m.status = e.during limit entry i pos)
    (hno : ∀ q, pos ≤ q → q ≤ limit → ¬e.Occurs i q) :
    Scanned e limit wordset entry i pos m m where
  entry_eq := hentry.trans (during_end hno)
  length_eq := hlen
  result_eq := ⟨[], (List.append_nil _).symm, List.Pairwise.nil, fun p =>
    iff_of_false List.not_mem_nil fun h => hno p h.1 h.2.2.1 h.2.1⟩

/-- The windows from `pos` on: the one at the next occurrence, if it is one, and those behind it -/
lemma window_from_iff {q : ℕ} (limit : ℕ) (wordset : List ℕ) (entry : ℕ → Option ℕ) (hq : pos ≤ q)
    (hfirst : ∀ p, pos ≤ p → p < q → ¬e.words.getD i [] <+: e.s.drop p) (p : ℕ) :
    pos ≤ p ∧ e.Window limit wordset entry i p ↔
      p = q ∧ e.Window limit wordset entry i q ∨ q + 1 ≤ p ∧ e.Window limit wordset entry i p := by
  constructor
  · rintro ⟨hp, hw⟩
    rcases Nat.lt_trichotomy p q with hlt | rfl | hlt
    · exact absurd hw.1.2 (hfirst p hp hlt)
    · exact .inl ⟨rfl, hw⟩
    · exact .inr ⟨hlt, hw⟩
  · rintro (⟨rfl, hw⟩ | ⟨hp, hw⟩)
    · exact ⟨hq, hw⟩
    · exact ⟨by omega, hw⟩

/-- The loop comes to the next occurrence `q`, writes its entry, looks for the rest of the window and
goes on behind it. -/
lemma Scanned.step {q : ℕ} {m m' m'' : Memo} (hq : pos ≤ q)
    (hfirst : ∀ p, pos ≤ p → p < q → ¬e.words.getD i [] <+: e.s.drop p) (hocc : e.Occurs i q)
    (hle : q ≤ limit)
    (hyes : e.Follows (e.during limit entry i (q + 1)) (wordset.erase i) (q + e.wordLen) →
      m'.result = m.result ++ [q])
    (hno : ¬e.Follows (e.during limit entry i (q + 1)) (wordset.erase i) (q + e.wordLen) →
      m'.result = m.result)
    (h : Scanned e limit wordset entry i (q + 1) m' m'') :
    Scanned e limit wordset entry i pos m m'' := by
  refine ⟨h.entry_eq, h.length_eq, ?_⟩
  obtain ⟨ps, hps, hsorted, hmem⟩ := h.result_eq
  have hsplit := window_from_iff limit wordset entry hq hfirst
  by_cases hw : e.Window limit wordset entry i q
  · refine ⟨q :: ps, ?_, ?_, fun p => ?_⟩
    · rw [hps, hyes hw.2.2, List.append_assoc, List.singleton_append]
    · exact List.pairwise_cons.mpr ⟨fun p hp => ((hmem p).mp hp).1, hsorted⟩
    · rw [List.mem_cons, hmem, hsplit, and_iff_left hw]
  · refine ⟨ps, ?_, hsorted, fun p => ?_⟩
    · rw [hps, hno fun hfollows => hw ⟨hocc, hle, hfollows⟩]
    · rw [hmem, hsplit, or_iff_right fun h => hw h.2]

lemma occurrences_scanned {total : ℕ} (hlimit : sizeSub e.s.length total = limit)
    (hempty : e.words.getD i [] = [] → limit < e.s.length) (wordset : List ℕ) (pos : ℕ) {m : Memo}
    (hlen : m.status.length = e.s.length)
    (hentry : e.entry m.status = e.during limit entry i pos) :
    Scanned e limit wordset entry i pos m (occurrences e total wordset i pos m) := by
  induction hn : e.s.length + 1 - pos using Nat.strongRecOn generalizing pos m with
  | ind n ih =>
    rw [occurrences]
    split
    · rename_i hfind
      apply scanned_of_no_occurrence hlen hentry
      intro q hq _ hocc
      exact strFind_eq_none hfind hq (Nat.le_of_lt hocc.1) hocc.2
    rename_i q hfind
    obtain ⟨hq, hqs, hpre, hfirst⟩ := strFind_eq_some hfind
    rw [hlimit]
    split
    · rename_i hbreak
      apply scanned_of_no_occurrence hlen hentry
      intro p hp hpl hocc
      exact hfirst p hp (by omega) hocc.2
    · rename_i hbreak
      have hle : q ≤ limit := Nat.le_of_not_lt hbreak
      have hocc : e.Occurs i q := by
        refine ⟨?_, hpre⟩
        by_contra hend
        rw [List.drop_of_length_le (Nat.le_of_not_lt hend)] at hpre
        have := hempty (List.prefix_nil.mp hpre)
        omega
      have hset : e.entry (m.status.set q (.word i)) = e.during limit entry i (q + 1) := by
        rw [entry_set_word (by rw [hlen]; exact hocc.1), hentry,
          during_eq_of_no_occurrence hq fun p hp hpq _ hbad => hfirst p hp hpq hbad.2,
          during_succ hocc hle]
      obtain ⟨hfentry, hflen, hyes, hno⟩ := find_entry e q (q + e.wordLen) (wordset.erase i)
        ⟨m.status.set q (.word i), m.result⟩
      dsimp only at hfentry hflen hyes hno
      rw [hset] at hfentry hyes hno
      rw [List.length_set, hlen] at hflen
      exact (ih _ (by omega) (q + 1) hflen hfentry rfl).step hq hfirst hocc hle hyes hno

open Classical in
/-- The starts of the windows that the entries show, for the first `n` words -/
noncomputable def Env.windowsUpTo (e : Env) (limit : ℕ) (wordset : List ℕ) (entry : ℕ → Option ℕ)
    (n : ℕ) : List ℕ :=
  (List.range n).flatMap fun i =>
    (List.range e.s.length).filter fun p => e.Window limit wordset entry i p

/-- What the loop for one word adds is determined by the windows. -/
lemma Scanned.result_eq_filter {m m' : Memo} (h : Scanned e limit wordset entry i 0 m m') :
    m'.result = m.result ++ open Classical in
      (List.range e.s.length).filter fun p => e.Window limit wordset entry i p := by
  obtain ⟨ps, hps, hsorted, hmem⟩ := h.result_eq
  rw [hps]
  congr 1
  apply List.Pairwise.eq_of_mem_iff hsorted (List.pairwise_lt_range.filter _)
  intro p
  rw [hmem, List.mem_filter, List.mem_range]
  simp only [Nat.zero_le, true_and, decide_eq_true_eq]
  exact ⟨fun hw => ⟨hw.1.1, hw⟩, fun hw => hw.2⟩

/-- The loops for the first `n` words -/
def loops (e : Env) (total : ℕ) (wordset : List ℕ) (n : ℕ) (m : Memo) : Memo :=
  (List.range n).foldl (fun m i => occurrences e total wordset i 0 m) m

lemma loops_succ (e : Env) (total : ℕ) (wordset : List ℕ) (n : ℕ) (m : Memo) :
    loops e total wordset (n + 1) m =
      occurrences e total wordset n 0 (loops e total wordset n m) := by
  rw [loops, List.range_succ, List.foldl_append]
  rfl

lemma loops_spec {total : ℕ} (hlimit : sizeSub e.s.length total = limit)
    (hempty : [] ∈ e.words → limit < e.s.length) (wordset : List ℕ) {status : List Status}
    (hlen : status.length = e.s.length) {n : ℕ} (hn : n ≤ e.words.length) :
    e.entry (loops e total wordset n ⟨status, []⟩).status =
        e.afterWords limit (e.entry status) n ∧
      (loops e total wordset n ⟨status, []⟩).status.length = e.s.length ∧
      (loops e total wordset n ⟨status, []⟩).result =
        e.windowsUpTo limit wordset (e.entry status) n := by
  induction n with
  | zero => exact ⟨rfl, hlen, rfl⟩
  | succ n ih =>
    obtain ⟨hentry, hlen', hresult⟩ := ih (by omega)
    have hempty' : e.words.getD n [] = [] → limit < e.s.length := by
      intro hnil
      apply hempty
      rw [← hnil, List.getD_eq_getElem?_getD, List.getElem?_eq_getElem hn, Option.getD_some]
      exact List.getElem_mem hn
    have hscan := occurrences_scanned hlimit hempty' wordset 0 hlen' (hentry.trans during_zero.symm)
    rw [loops_succ]
    refine ⟨hscan.entry_eq, hscan.length_eq, ?_⟩
    rw [hscan.result_eq_filter, hresult, Env.windowsUpTo, Env.windowsUpTo, List.range_succ,
      List.flatMap_append, List.flatMap_singleton]

lemma mem_wordsetstr {words : List (List Char)} {w : List Char} :
    w ∈ wordsetstr words ↔ w ∈ words := by
  rw [wordsetstr, List.mem_mergeSort, List.mem_dedup]

section call

variable {s : List Char} {words : List (List Char)}

/-- The last position at which a window may begin, as the loop computes it -/
def lastStart (s : List Char) (words : List (List Char)) : ℕ :=
  sizeSub s.length (words.length * (Env.of s words).wordLen)

/-- The result of a call by the entries it begins with -/
noncomputable def windows (s : List Char) (words : List (List Char)) (entry : ℕ → Option ℕ) :
    List ℕ :=
  (Env.of s words).windowsUpTo (lastStart s words) (wordsetint (Env.of s words) words) entry
    (Env.of s words).words.length

lemma length_resize (status : List Status) (n : ℕ) : (resize status n).length = n :=
  length_take_append_replicate status n .unknown

lemma call_fst (hne : words ≠ []) (hinside : ¬WritesOutside s words) (status : List Status) :
    (call status s words).map Prod.fst =
      some (windows s words ((Env.of s words).entry (resize status s.length))) := by
  have hlength : words.length ≠ 0 := fun h => hne (List.eq_nil_of_length_eq_zero h)
  rw [call, if_neg hlength, if_neg hinside, Option.map_some]
  congr 1
  refine (loops_spec rfl (fun hmem => ?_) _ (length_resize status s.length) (Nat.le_refl _)).2.2
  by_contra hle
  exact hinside ⟨mem_wordsetstr.mp hmem, Nat.le_of_not_lt hle⟩

lemma resize_nil (n : ℕ) : resize [] n = List.replicate n .unknown := by
  rw [resize, List.take_nil, List.nil_append, List.length_nil, Nat.sub_zero]

/-- On a new object every entry is the word that stands there. -/
def Env.trueEntry (e : Env) (j : ℕ) : Option ℕ := e.words.idxOf? (e.chunk j)

lemma entry_replicate (e : Env) (n : ℕ) : e.entry (List.replicate n .unknown) = e.trueEntry := by
  funext j
  unfold Env.entry
  have hget : (List.replicate n Status.unknown).getD j .unknown = .unknown := by
    rw [List.getD_eq_getElem?_getD, List.getElem?_replicate]
    split <;> rfl
  rw [hget]
  rfl

/-- The call on a new object -/
lemma call_new (hinside : ¬WritesOutside s words) :
    (call [] s words).map Prod.fst = some (findSubstring s words) := by
  rw [call, findSubstring, resize_nil, if_neg hinside]
  split
  · rfl
  · rfl

/-- Two calls agree when the entries they begin with show the same windows. -/
lemma call_fst_eq_iff (status status' : List Status) :
    (call status s words).map Prod.fst = (call status' s words).map Prod.fst ↔
      words = [] ∨ WritesOutside s words ∨
        windows s words ((Env.of s words).entry (resize status s.length)) =
          windows s words ((Env.of s words).entry (resize status' s.length)) := by
  by_cases hne : words = []
  · subst hne
    exact iff_of_true rfl (.inl rfl)
  by_cases houtside : WritesOutside s words
  · have hlength : words.length ≠ 0 := fun h => hne (List.eq_nil_of_length_eq_zero h)
    have hnone : ∀ st : List Status, call st s words = none := by
      intro st
      rw [call, if_neg hlength, if_pos houtside]
    rw [hnone, hnone]
    exact iff_of_true rfl (.inr (.inl houtside))
  · rw [call_fst hne houtside, call_fst hne houtside, Option.some_inj]
    exact ⟨fun h => .inr (.inr h), fun h => (h.resolve_left hne).resolve_left houtside⟩

lemma mem_windows {p : ℕ} : p ∈ windows s words entry ↔ ∃ i < (Env.of s words).words.length,
    (Env.of s words).Window (lastStart s words) (wordsetint (Env.of s words) words) entry i p := by
  rw [windows, Env.windowsUpTo, List.mem_flatMap]
  simp only [List.mem_range, List.mem_filter, decide_eq_true_eq]
  constructor
  · rintro ⟨i, hi, -, hw⟩
    exact ⟨i, hi, hw⟩
  · rintro ⟨i, hi, hw⟩
    exact ⟨i, hi, hw.1.1, hw⟩

end call

end CodeC.Leetcode30
