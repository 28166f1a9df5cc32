import CodeC.Library.Digits
import Mathlib.Data.List.Infix

/-!
# Occurrences of a word in a text

Finding the first occurrence of a word, and replacing occurrences one by one.
-/

namespace CodeC.Library

variable {α : Type} [DecidableEq α]

/-- The first position from `pos` on at which `w` stands in `s` -/
def findFrom (s w : List α) (pos : ℕ) : Option ℕ :=
  (List.range' pos (s.length + 1 - pos)).find? fun p => w.isPrefixOf (s.drop p)

section find

variable {s w : List α} {pos p : ℕ}

lemma findFrom_eq_none (h : findFrom s w pos = none) (hp : pos ≤ p) (hps : p ≤ s.length) :
    ¬w <+: s.drop p := by
  have hno := List.find?_eq_none.mp h p (by rw [List.mem_range'_1]; omega)
  rwa [List.isPrefixOf_iff_prefix] at hno

lemma findFrom_eq_some_iff : findFrom s w pos = some p ↔
    pos ≤ p ∧ p ≤ s.length ∧ w <+: s.drop p ∧ ∀ q, pos ≤ q → q < p → ¬w <+: s.drop q := by
  rw [findFrom, List.find?_range'_eq_some, List.mem_range'_1, List.isPrefixOf_iff_prefix]
  constructor
  · rintro ⟨hpre, hmem, hfirst⟩
    refine ⟨hmem.1, by omega, hpre, fun q hq hqp hbad => ?_⟩
    have hno := hfirst q hq hqp
    rw [List.isPrefixOf_iff_prefix.mpr hbad] at hno
    cases hno
  · rintro ⟨hpos, hps, hpre, hfirst⟩
    refine ⟨hpre, by omega, fun q hq hqp => ?_⟩
    have hno := hfirst q hq hqp
    rw [← List.isPrefixOf_iff_prefix, Bool.not_eq_true] at hno
    rw [hno]
    rfl

/-- There is a first occurrence, not behind any other. -/
lemma exists_findFrom_le (h : w <+: s.drop p) (hps : p ≤ s.length) :
    ∃ q ≤ p, findFrom s w 0 = some q := by
  cases hfind : findFrom s w 0 with
  | none => exact absurd h (findFrom_eq_none hfind (Nat.zero_le p) hps)
  | some q =>
    refine ⟨q, Nat.le_of_not_lt fun hlt => ?_, rfl⟩
    exact (findFrom_eq_some_iff.mp hfind).2.2.2 p (Nat.zero_le p) hlt h

/-- The text before, in and after the first occurrence -/
lemma eq_of_findFrom (h : findFrom s w 0 = some p) :
    s = s.take p ++ (w ++ s.drop (p + w.length)) ∧ (s.take p).length = p := by
  obtain ⟨-, hps, ⟨t, ht⟩, -⟩ := findFrom_eq_some_iff.mp h
  refine ⟨?_, by rw [List.length_take]; omega⟩
  have hdrop : s.drop (p + w.length) = t := by
    rw [← List.drop_drop, ← ht, List.drop_left]
  rw [hdrop, ht, List.take_append_drop]

lemma findFrom_eq_none_iff : findFrom s w 0 = none ↔ ¬w <:+: s := by
  constructor
  · rintro h ⟨a, b, rfl⟩
    refine findFrom_eq_none h (Nat.zero_le a.length) ?_ ⟨b, ?_⟩
    · simp only [List.length_append]
      omega
    · rw [List.append_assoc, List.drop_left]
  · intro h
    cases hfind : findFrom s w 0 with
    | none => rfl
    | some p =>
      refine absurd ⟨s.take p, s.drop (p + w.length), ?_⟩ h
      rw [List.append_assoc]
      exact (eq_of_findFrom hfind).1.symm

/-- A first part in which no occurrence begins is passed over. -/
lemma findFrom_append {d : List α} (hd : ∀ q < d.length, ¬w <+: (d ++ s).drop q) :
    findFrom (d ++ s) w 0 = (findFrom s w 0).map (d.length + ·) := by
  have hdrop : ∀ q, (d ++ s).drop (d.length + q) = s.drop q := by
    intro q
    rw [← List.drop_drop, List.drop_left]
  cases hfind : findFrom s w 0 with
  | none =>
    rw [Option.map_none]
    cases hfind' : findFrom (d ++ s) w 0 with
    | none => rfl
    | some p =>
      obtain ⟨-, hps, hpre, -⟩ := findFrom_eq_some_iff.mp hfind'
      rw [List.length_append] at hps
      have hle : d.length ≤ p := by
        by_contra hlt
        exact hd p (by omega) hpre
      obtain ⟨q, rfl⟩ := Nat.exists_eq_add_of_le hle
      rw [hdrop] at hpre
      exact absurd hpre (findFrom_eq_none hfind (Nat.zero_le q) (by omega))
  | some p =>
    obtain ⟨-, hps, hpre, hfirst⟩ := findFrom_eq_some_iff.mp hfind
    rw [Option.map_some, findFrom_eq_some_iff, hdrop, List.length_append]
    refine ⟨Nat.zero_le _, by omega, hpre, fun q hq hqp => ?_⟩
    by_cases hlt : q < d.length
    · exact hd q hlt
    · obtain ⟨r, rfl⟩ := Nat.exists_eq_add_of_le (Nat.le_of_not_lt hlt)
      rw [hdrop]
      exact hfirst r (Nat.zero_le r) (by omega)

end find

/-- Every occurrence of `old` that is met from left to right is replaced; the first argument counts
the symbols of an occurrence that are still to be passed over. -/
def substitute (old new : List α) : ℕ → List α → List α
  | _, [] => []
  | k + 1, _ :: s => substitute old new k s
  | 0, c :: s =>
    if old.isPrefixOf (c :: s) then new ++ substitute old new (old.length - 1) s
    else c :: substitute old new 0 s

section substitute

variable {old new : List α} {s : List α} {p : ℕ}

lemma substitute_skip (old new : List α) (k : ℕ) (s : List α) :
    substitute old new k s = substitute old new 0 (s.drop k) := by
  induction s generalizing k with
  | nil => cases k <;> simp [substitute]
  | cons c s ih =>
    cases k with
    | zero => rfl
    | succ k => rw [substitute, ih, List.drop_succ_cons]

/-- Nothing is replaced before the first occurrence. -/
lemma substitute_append (hp : ∀ q < p, ¬old <+: s.drop q) :
    substitute old new 0 s = s.take p ++ substitute old new 0 (s.drop p) := by
  induction p generalizing s with
  | zero => rw [List.take_zero, List.drop_zero, List.nil_append]
  | succ p ih =>
    cases s with
    | nil => simp [substitute]
    | cons c s =>
      have hno : ¬old.isPrefixOf (c :: s) = true := by
        rw [List.isPrefixOf_iff_prefix]
        exact hp 0 (Nat.succ_pos p)
      rw [substitute, if_neg hno, List.take_succ_cons, List.drop_succ_cons, List.cons_append,
        ← ih fun q hq => ?_]
      exact hp (q + 1) (by omega)

lemma substitute_of_prefix (hold : old ≠ []) (h : old <+: s) :
    substitute old new 0 s = new ++ substitute old new 0 (s.drop old.length) := by
  have hpos := List.length_pos_of_ne_nil hold
  cases s with
  | nil => exact absurd (List.prefix_nil.mp h) hold
  | cons c s =>
    rw [substitute, if_pos (List.isPrefixOf_iff_prefix.mpr h), substitute_skip]
    obtain ⟨k, hk⟩ : ∃ k, old.length = k + 1 := ⟨old.length - 1, by omega⟩
    rw [hk, List.drop_succ_cons, Nat.add_sub_cancel]

lemma substitute_of_none (h : findFrom s old 0 = none) : substitute old new 0 s = s := by
  have hno : ∀ q < s.length, ¬old <+: s.drop q :=
    fun q hq => findFrom_eq_none h (Nat.zero_le q) (Nat.le_of_lt hq)
  rw [substitute_append hno, List.take_length, List.drop_length, substitute, List.append_nil]

lemma substitute_of_some (hold : old ≠ []) (h : findFrom s old 0 = some p) :
    substitute old new 0 s =
      s.take p ++ (new ++ substitute old new 0 (s.drop (p + old.length))) := by
  obtain ⟨-, -, hpre, hfirst⟩ := findFrom_eq_some_iff.mp h
  rw [substitute_append fun q hq => hfirst q (Nat.zero_le q) hq, substitute_of_prefix hold hpre,
    List.drop_drop]

lemma substitute_self (hold : old ≠ []) (s : List α) : substitute old old 0 s = s := by
  have hpos := List.length_pos_of_ne_nil hold
  induction hn : s.length using Nat.strongRecOn generalizing s with
  | ind n ih =>
    cases hp : findFrom s old 0 with
    | none => exact substitute_of_none hp
    | some p =>
      obtain ⟨heq, hlen⟩ := eq_of_findFrom hp
      have hlt := congrArg List.length heq
      rw [List.length_append, List.length_append, hlen] at hlt
      rw [substitute_of_some hold hp, ih _ (by omega) _ rfl]
      exact heq.symm

/-- The replacement of the occurrences of `str` one after the other: the part that is done, and the
rest of `str`. -/
inductive Stage (old new str : List α) : List α → List α → Prop
  | start : Stage old new str [] str
  | next {done rest : List α} {p : ℕ} (h : Stage old new str done rest)
      (hp : findFrom rest old 0 = some p) :
      Stage old new str (done ++ (rest.take p ++ new)) (rest.drop (p + old.length))

lemma Stage.substitute {str done rest : List α} (hold : old ≠ []) (h : Stage old new str done rest) :
    Library.substitute old new 0 str = done ++ Library.substitute old new 0 rest := by
  induction h with
  | start => rfl
  | next h hp ih =>
    rw [ih, substitute_of_some hold hp]
    simp only [List.append_assoc]

lemma Stage.eq_of_none {str done rest : List α} (hno : findFrom str old 0 = none)
    (h : Stage old new str done rest) : done = [] ∧ rest = str := by
  induction h with
  | start => exact ⟨rfl, rfl⟩
  | next h hp ih =>
    rw [ih.2, hno] at hp
    cases hp

/-- No occurrence of `old` ever begins in the part that is done. -/
def Undisturbed (old new str : List α) : Prop :=
  ∀ done rest, Stage old new str done rest → ∀ q < done.length, ¬old <+: (done ++ rest).drop q

end substitute

/-- Two words of which none begins with the other -/
lemma exists_first_difference {v w : List α} (hv : ¬v <+: w) (hw : ¬w <+: v) :
    ∃ c x y v' w', x ≠ y ∧ v = c ++ x :: v' ∧ w = c ++ y :: w' := by
  induction v generalizing w with
  | nil => exact absurd List.nil_prefix hv
  | cons x v ih =>
    cases w with
    | nil => exact absurd List.nil_prefix hw
    | cons y w =>
      by_cases hxy : x = y
      · subst hxy
        rw [List.prefix_cons_inj] at hv hw
        obtain ⟨c, x', y', v', w', hne, rfl, rfl⟩ := ih hv hw
        exact ⟨x :: c, x', y', v', w', hne, rfl, rfl⟩
      · exact ⟨[], x, y, v, w, hxy, rfl, rfl⟩

/-- At its first difference from `u`, at position `i`, the text `t` has lost the symbol `x`. -/
structure Falls (x : α) (i : ℕ) (u t : List α) : Prop where
  same : ∀ j < i, t[j]? = u[j]?
  before : u[i]? = some x
  after : t[i]? ≠ some x

section falls

variable {x y : α} {i j : ℕ} {u t v : List α}

omit [DecidableEq α] in
lemma falls_append (c b b' : List α) (hxy : x ≠ y) :
    Falls x c.length (c ++ x :: b) (c ++ y :: b') := by
  refine ⟨fun j hj => ?_, ?_, ?_⟩
  · rw [List.getElem?_append_left hj, List.getElem?_append_left hj]
  · simp
  · simpa using Ne.symm hxy

omit [DecidableEq α] in
lemma Falls.trans (h : Falls x i u t) (h' : Falls x j t v) : Falls x (min i j) u v := by
  rcases Nat.lt_trichotomy i j with hij | rfl | hji
  · rw [Nat.min_eq_left (Nat.le_of_lt hij)]
    refine ⟨fun k hk => ?_, h.before, ?_⟩
    · rw [h'.same k (by omega), h.same k hk]
    · rw [h'.same i hij]
      exact h.after
  · exact absurd h'.before h.after
  · rw [Nat.min_eq_right (Nat.le_of_lt hji)]
    refine ⟨fun k hk => ?_, ?_, h'.after⟩
    · rw [h'.same k hk, h.same k (by omega)]
    · rw [← h.same j hji]
      exact h'.before

/-- The text as a binary number, with a one for every `x` -/
def mark (x : α) (u : List α) : ℕ := value 2 (u.map fun c => if c = x then 1 else 0)

lemma mark_lt (c : List α) {b b' : List α} (hxy : x ≠ y) (hlen : b'.length = b.length) :
    mark x (c ++ y :: b') < mark x (c ++ x :: b) := by
  have hbit : ∀ a ∈ b'.map (fun c => if c = x then 1 else 0), a < 2 := by
    intro a ha
    obtain ⟨d, -, rfl⟩ := List.mem_map.mp ha
    split <;> omega
  have hlt := value_lt hbit
  rw [List.length_map, hlen] at hlt
  unfold mark
  rw [List.map_append, List.map_append, value_append, value_append, List.map_cons, List.map_cons,
    if_pos rfl, if_neg (Ne.symm hxy), value, value, List.length_cons, List.length_cons,
    List.length_map, List.length_map, hlen]
  omega

end falls

end CodeC.Library
