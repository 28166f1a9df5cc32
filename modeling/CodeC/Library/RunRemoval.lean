import Mathlib.Data.List.Basic
import Mathlib.Tactic.Ring

/-!
# Removing a list run by run

A move takes out a run of equal elements and scores the square of its length; the rest closes up.
Which elements go together is fixed by the group of the first element: it goes alone, or it waits
until the gap before a later element of its kind is removed and joins the group of that element.
-/

namespace CodeC.Library

variable {α : Type}

/-- The list is removed by moves that score `s` in total. -/
inductive Removes : List α → ℕ → Prop
  | done : Removes [] 0
  | move (xs ys : List α) (c : α) {k s : ℕ} (hk : 1 ≤ k) (h : Removes (xs ++ ys) s) :
      Removes (xs ++ List.replicate k c ++ ys) (s + k * k)

/-- A removal that scores `s` and takes the first element in a group of `k`. -/
inductive Plan : List α → ℕ → ℕ → Prop
  | nil : Plan [] 0 0
  | alone (c : α) {rest : List α} {s k : ℕ} (h : Plan rest s k) : Plan (c :: rest) (s + 1) 1
  | join (c : α) {gap rest : List α} {s k t j : ℕ} (hgap : Plan gap s k)
      (hrest : Plan (c :: rest) t j) : Plan (c :: (gap ++ c :: rest)) (s + t + 2 * j + 1) (j + 1)

/-- A plan with the greatest score -/
def Best (xs : List α) (s k : ℕ) : Prop := Plan xs s k ∧ ∀ t j, Plan xs t j → t ≤ s

lemma Plan.score_pos {c : α} {xs : List α} {s k : ℕ} (h : Plan (c :: xs) s k) : 0 < s := by
  cases h with
  | alone => omega
  | join => omega

lemma Plan.cons_cases {c : α} {xs : List α} {s k : ℕ} (h : Plan (c :: xs) s k) :
    (∃ t j, Plan xs t j ∧ s = t + 1 ∧ k = 1) ∨
      ∃ gap rest t j u i, xs = gap ++ c :: rest ∧ Plan gap t j ∧ Plan (c :: rest) u i ∧
        s = t + u + 2 * i + 1 ∧ k = i + 1 := by
  cases h with
  | alone _ h => exact .inl ⟨_, _, h, rfl, rfl⟩
  | join _ hgap hrest => exact .inr ⟨_, _, _, _, _, _, rfl, hgap, hrest, rfl, rfl⟩

/-- An element without another of its kind goes alone. -/
lemma Plan.cons_of_notMem {c : α} {xs : List α} {s k : ℕ} (h : Plan (c :: xs) s k)
    (hc : c ∉ xs) : ∃ t j, Plan xs t j ∧ s = t + 1 ∧ k = 1 := by
  rcases h.cons_cases with h | ⟨gap, rest, -, -, -, -, rfl, -⟩
  · exact h
  · exact absurd (List.mem_append_right gap List.mem_cons_self) hc

lemma Plan.eq_one_of_singleton {c : α} {s k : ℕ} (h : Plan [c] s k) : s = 1 ∧ k = 1 := by
  obtain ⟨t, j, ht, rfl, rfl⟩ := h.cons_of_notMem List.not_mem_nil
  cases ht
  exact ⟨rfl, rfl⟩

lemma Plan.append {xs ys : List α} {s k t j : ℕ} (hx : Plan xs s k) (hy : Plan ys t j) :
    ∃ m, Plan (xs ++ ys) (s + t) m ∧ (xs ≠ [] → m = k) := by
  induction hx with
  | nil => exact ⟨j, by rwa [List.nil_append, Nat.zero_add], fun h => absurd rfl h⟩
  | alone c h ih =>
    obtain ⟨m, hm, -⟩ := ih
    refine ⟨1, ?_, fun _ => rfl⟩
    rw [List.cons_append, Nat.add_right_comm]
    exact .alone c hm
  | @join c gap rest s₁ k₁ t₁ j₁ hgap hrest _ ih =>
    obtain ⟨m, hm, hmk⟩ := ih
    obtain rfl := hmk (List.cons_ne_nil c rest)
    refine ⟨m + 1, ?_, fun _ => rfl⟩
    have hjoin := Plan.join c hgap hm
    rw [← List.cons_append, List.append_assoc] at *
    have hscore : s₁ + t₁ + 2 * m + 1 + t = s₁ + (t₁ + t) + 2 * m + 1 := by omega
    rw [hscore]
    exact hjoin

/-- The groups of the two first elements become one. -/
lemma Plan.merge {c : α} {xs ys : List α} {s k t j : ℕ} (hx : Plan (c :: xs) s k)
    (hy : Plan (c :: ys) t j) : Plan (c :: xs ++ c :: ys) (s + t + 2 * k * j) (k + j) := by
  generalize hzs : c :: xs = zs at hx ⊢
  induction hx generalizing xs with
  | nil => cases hzs
  | @alone d rest s k h _ =>
    cases hzs
    have hjoin := Plan.join c h hy
    have hscore : s + 1 + t + 2 * 1 * j = s + t + 2 * j + 1 := by omega
    rw [hscore, Nat.add_comm 1 j]
    exact hjoin
  | @join d gap rest s₁ k₁ t₁ j₁ hgap hrest _ ih =>
    cases hzs
    have hjoin := Plan.join c hgap (ih rfl)
    have hscore : s₁ + t₁ + 2 * j₁ + 1 + t + 2 * (j₁ + 1) * j =
        s₁ + (t₁ + t + 2 * j₁ * j) + 2 * (j₁ + j) + 1 := by ring
    have hgroup : j₁ + 1 + j = j₁ + j + 1 := by omega
    rw [hscore, hgroup, List.cons_append, List.append_assoc]
    exact hjoin

/-- Within any surroundings, `xs` can be removed up to `k` elements `c` for the score `t`. -/
def Reduces (xs : List α) (c : α) (k t : ℕ) : Prop :=
  ∀ (as bs : List α) (u : ℕ),
    Removes (as ++ List.replicate k c ++ bs) u → Removes (as ++ xs ++ bs) (u + t)

/-- The elements outside the group of the first element are removed first. -/
def Reducible (xs : List α) (s k : ℕ) : Prop :=
  ∀ c, xs.head? = some c → 1 ≤ k ∧ ∃ t, s = t + k * k ∧ Reduces xs c k t

/-- Then the group of the first element is removed. -/
lemma Plan.clear_of_reducible {xs : List α} {s k : ℕ} (h : Plan xs s k) (hr : Reducible xs s k)
    {as bs : List α} {u : ℕ} (hu : Removes (as ++ bs) u) : Removes (as ++ xs ++ bs) (u + s) := by
  cases xs with
  | nil =>
    cases h
    rwa [List.append_nil]
  | cons c xs =>
    obtain ⟨hk, t, rfl, hreduce⟩ := hr c rfl
    rw [Nat.add_comm t, ← Nat.add_assoc]
    exact hreduce as bs _ (.move as bs c hk hu)

lemma Plan.reducible {xs : List α} {s k : ℕ} (h : Plan xs s k) : Reducible xs s k := by
  induction h with
  | nil =>
    intro c hc
    cases hc
  | @alone d rest s k h ih =>
    intro c hc
    obtain rfl := Option.some.inj hc
    refine ⟨Nat.le_refl 1, s, rfl, fun as bs u hu => ?_⟩
    have hclear := h.clear_of_reducible ih hu
    rwa [List.append_assoc as] at hclear
  | @join d gap rest s k t j hgap hrest ihgap ih =>
    intro c hc
    obtain rfl := Option.some.inj hc
    obtain ⟨hj, v, rfl, hreduce⟩ := ih d rfl
    refine ⟨by omega, s + v, by ring, fun as bs u hu => ?_⟩
    -- the later members of the group wait for the first one
    have hsplit : as ++ List.replicate (j + 1) d ++ bs =
        as ++ [d] ++ List.replicate j d ++ bs := by
      simp [List.replicate_succ]
    rw [hsplit] at hu
    have hrest' := hreduce (as ++ [d]) bs u hu
    rw [List.append_assoc] at hrest'
    have hclear := hgap.clear_of_reducible ihgap hrest'
    have hjoin : as ++ d :: (gap ++ d :: rest) ++ bs = as ++ [d] ++ gap ++ (d :: rest ++ bs) := by
      simp
    rw [hjoin, Nat.add_comm s, ← Nat.add_assoc]
    exact hclear

lemma Plan.removes {xs : List α} {s k : ℕ} (h : Plan xs s k) : Removes xs s := by
  have hclear : Removes ([] ++ xs ++ []) (0 + s) := h.clear_of_reducible h.reducible .done
  rwa [List.nil_append, List.append_nil, Nat.zero_add] at hclear

lemma plan_replicate (c : α) (m : ℕ) : Plan (List.replicate m c) (m * m) m := by
  induction m with
  | zero => exact .nil
  | succ m ih =>
    cases m with
    | zero => exact .alone c .nil
    | succ m =>
      have hjoin := Plan.join c .nil ih
      have hscore : (m + 1 + 1) * (m + 1 + 1) = 0 + (m + 1) * (m + 1) + 2 * (m + 1) + 1 := by ring
      rw [hscore]
      exact hjoin

/-- A run may be put in at the front, and elsewhere where the plan goes on with it. -/
lemma Plan.exists_insert {c : α} {m : ℕ} {xs ys : List α} {s k : ℕ} (h : Plan (xs ++ ys) s k)
    (hput : xs ≠ [] → Plan (xs ++ List.replicate m c ++ ys) (s + m * m) k) :
    ∃ j, Plan (xs ++ List.replicate m c ++ ys) (s + m * m) j := by
  cases xs with
  | nil =>
    obtain ⟨j, hj, -⟩ := (plan_replicate c m).append h
    exact ⟨j, by rwa [Nat.add_comm]⟩
  | cons d xs => exact ⟨k, hput (List.cons_ne_nil d xs)⟩

/-- A run put into the gap -/
lemma Plan.join_insert {c d : α} {m : ℕ} {xs ys rest : List α} {s t i j : ℕ}
    (hgap : Plan (xs ++ List.replicate m c ++ ys) (s + m * m) i) (hrest : Plan (d :: rest) t j) :
    Plan (d :: (xs ++ List.replicate m c ++ (ys ++ d :: rest)))
      (s + t + 2 * j + 1 + m * m) (j + 1) := by
  have hjoin := Plan.join d hgap hrest
  have hscore : s + t + 2 * j + 1 + m * m = s + m * m + t + 2 * j + 1 := by omega
  rw [hscore, ← List.append_assoc]
  exact hjoin

/-- A run put in behind the first element does not change the group of the first element. -/
lemma Plan.insert {zs : List α} {s k : ℕ} (h : Plan zs s k) (c : α) (m : ℕ) {xs ys : List α}
    (hzs : zs = xs ++ ys) (hxs : xs ≠ []) :
    Plan (xs ++ List.replicate m c ++ ys) (s + m * m) k := by
  induction h generalizing xs ys with
  | nil => exact absurd (List.append_eq_nil_iff.mp hzs.symm).1 hxs
  | @alone d rest s k h ih =>
    obtain ⟨e, xs, rfl⟩ := List.exists_cons_of_ne_nil hxs
    obtain ⟨rfl, rfl⟩ := List.cons.inj hzs
    obtain ⟨j, hj⟩ := h.exists_insert (ih rfl)
    rw [Nat.add_right_comm]
    exact .alone d hj
  | @join d gap rest s k t j hgap hrest ihgap ih =>
    obtain ⟨e, xs, rfl⟩ := List.exists_cons_of_ne_nil hxs
    obtain ⟨rfl, hsplit⟩ := List.cons.inj hzs
    have hwithin : ∀ as bs, gap = as ++ bs → Plan (d :: (as ++ List.replicate m c ++ (bs ++ d :: rest)))
        (s + t + 2 * j + 1 + m * m) (j + 1) := by
      rintro as bs rfl
      obtain ⟨i, hi⟩ := hgap.exists_insert (ihgap rfl)
      exact hi.join_insert hrest
    -- the run falls into the gap or behind it
    rcases List.append_eq_append_iff.mp hsplit with ⟨ws, rfl, hws⟩ | ⟨ws, hws, rfl⟩
    · cases ws with
      | nil =>
        have hend := hwithin gap [] (List.append_nil gap).symm
        rw [List.nil_append] at hws hend
        rw [List.append_nil, ← hws]
        exact hend
      | cons e ws =>
        obtain ⟨rfl, rfl⟩ := List.cons.inj hws
        have hjoin := Plan.join d hgap (ih (List.cons_append).symm (List.cons_ne_nil d ws))
        have hscore : s + t + 2 * j + 1 + m * m = s + (t + m * m) + 2 * j + 1 := by omega
        rw [hscore]
        simpa using hjoin
    · exact hwithin xs ws hws

theorem removes_iff_plan {xs : List α} {s : ℕ} : Removes xs s ↔ ∃ k, Plan xs s k := by
  constructor
  · intro h
    induction h with
    | done => exact ⟨0, .nil⟩
    | move xs ys c hk h ih =>
      obtain ⟨k, hplan⟩ := ih
      exact hplan.exists_insert fun hxs => hplan.insert c _ rfl hxs
  · rintro ⟨k, h⟩
    exact h.removes

end CodeC.Library
