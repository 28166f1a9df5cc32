import CodeC.Leetcode546
import CodeC.Library.Loop
import CodeC.Library.RunRemoval
import Mathlib.Order.Bounds.Basic

/-!
# When `removeBoxes` finds the greatest score

Every entry of the table is the score of a removal with the size of the group of the first box.
The table has one entry for each interval, so a removal that scores less on the interval but keeps
a larger group for later is lost. Lists that can be taken apart without such removals are `Clear`.
-/

namespace CodeC.Leetcode546
open Library

/-- The splits that the loop looks at: not within a run of equal boxes, except before the last -/
def Cut (xs ys : List ℤ) : Prop :=
  xs ≠ [] ∧ ys ≠ [] ∧ (xs.getLast? ≠ ys.head? ∨ ys.length = 1)

/-- A list is taken apart at cuts where best removals of the two parts, whichever they are, give a
best removal of the whole. -/
inductive Clear : List ℤ → Prop
  | nil : Clear []
  | single (c : ℤ) : Clear [c]
  | apart {xs ys : List ℤ} (hcut : Cut xs ys) (hx : Clear xs) (hy : Clear ys)
      (hbest : ∀ s k t j, Best xs s k → Best ys t j → ∀ u m, Plan (xs ++ ys) u m → u ≤ s + t) :
      Clear (xs ++ ys)
  | joined {xs ys : List ℤ} (hcut : Cut xs ys) (hhead : xs.head? = ys.head?) (hx : Clear xs)
      (hy : Clear ys) (hbest : ∀ s k t j, Best xs s k → Best ys t j →
        ∀ u m, Plan (xs ++ ys) u m → u ≤ s + t + 2 * k * j) : Clear (xs ++ ys)

/-- The boxes from `l` to `r` -/
def seg (box : List ℤ) (l r : ℕ) : List ℤ := (box.drop l).take (r + 1 - l)

variable {box : List ℤ} {l r i : ℕ}

lemma seg_split (hl : l ≤ i) (hr : i < r) : seg box l r = seg box l i ++ seg box (i + 1) r := by
  have hlen : r + 1 - l = (i + 1 - l) + (r + 1 - (i + 1)) := by omega
  have hadd : l + (i + 1 - l) = i + 1 := by omega
  rw [seg, hlen, List.take_add, List.drop_drop, hadd]
  rfl

lemma length_seg (hr : r < box.length) : (seg box l r).length = r + 1 - l := by
  rw [seg, List.length_take, List.length_drop]
  omega

lemma head?_seg (hl : l ≤ r) : (seg box l r).head? = box[l]? := by
  rw [seg, List.head?_take, if_neg (by omega), List.head?_drop]

lemma getLast?_seg (hl : l ≤ r) (hr : r < box.length) : (seg box l r).getLast? = box[r]? := by
  have hsub : r + 1 - l - 1 = r - l := by omega
  rw [List.getLast?_eq_getElem?, length_seg hr, seg, hsub, List.getElem?_take_of_lt (by omega),
    List.getElem?_drop, Nat.add_sub_cancel' hl]

lemma seg_eq_cons (hl : l ≤ r) (hr : r < box.length) :
    ∃ c xs, seg box l r = c :: xs ∧ box[l]? = some c := by
  have hlen := length_seg (l := l) hr
  have hhead : (seg box l r).head? = box[l]? := head?_seg hl
  cases hseg : seg box l r with
  | nil =>
    rw [hseg, List.length_nil] at hlen
    omega
  | cons c xs =>
    rw [hseg] at hhead
    exact ⟨c, xs, rfl, hhead.symm⟩

/-- A cut of an interval is a split that the loop does not skip. -/
lemma exists_split {xs ys : List ℤ} (hl : l ≤ r) (hr : r < box.length)
    (h : seg box l r = xs ++ ys) (hcut : Cut xs ys) :
    ∃ i, l ≤ i ∧ i < r ∧ xs = seg box l i ∧ ys = seg box (i + 1) r ∧
      ¬(box[i]? = box[i + 1]? ∧ i ≠ r - 1) := by
  obtain ⟨hxs, hys, hor⟩ := hcut
  have hxlen := List.length_pos_iff.mpr hxs
  have hylen := List.length_pos_iff.mpr hys
  have hlen := congrArg List.length h
  rw [length_seg hr, List.length_append] at hlen
  obtain ⟨i, hi⟩ : ∃ i, i + 1 = l + xs.length := ⟨l + xs.length - 1, by omega⟩
  have hil : l ≤ i := by omega
  have hir : i < r := by omega
  have hsplit := (seg_split hil hir).symm.trans h
  obtain ⟨hx, hy⟩ := List.append_inj hsplit (by rw [length_seg (by omega)]; omega)
  refine ⟨i, hil, hir, hx.symm, hy.symm, ?_⟩
  rintro ⟨heq, hne⟩
  rcases hor with hor | hor
  · rw [← hx, ← hy, getLast?_seg hil (by omega), head?_seg (by omega)] at hor
    exact hor heq
  · omega

/-- An entry that is right for the interval -/
def Good (box : List ℤ) (l r : ℕ) (e : ℕ × ℕ) : Prop :=
  Plan (seg box l r) e.1 e.2 ∧ (Clear (seg box l r) → Best (seg box l r) e.1 e.2)

/-- The entries within `[l, r]` are empty or right. -/
def Sound (box : List ℤ) (l r : ℕ) (dp : Dp) : Prop :=
  ∀ a b, l ≤ a → a ≤ b → b ≤ r → (dp a b).1 = 0 ∨ Good box a b (dp a b)

/-- Only entries within `[l, r]` change, and they become right. -/
def Fills (box : List ℤ) (l r : ℕ) (dp dp' : Dp) : Prop :=
  ∀ a b, dp' a b = dp a b ∨ (l ≤ a ∧ a ≤ b ∧ b ≤ r) ∧ Good box a b (dp' a b)

lemma Good.score_pos {e : ℕ × ℕ} (h : Good box l r e) (hl : l ≤ r) (hr : r < box.length) :
    0 < e.1 := by
  obtain ⟨c, xs, hseg, -⟩ := seg_eq_cons hl hr
  have hplan := h.1
  rw [hseg] at hplan
  exact hplan.score_pos

lemma updatedp_of_ne (dp : Dp) {a b : ℕ} (score same : ℕ) (h : (a, b) ≠ (l, r)) :
    (updatedp dp l r score same).2 a b = dp a b := by
  rw [updatedp]
  split
  · rfl
  · exact if_neg fun hab => h (Prod.ext hab.1 hab.2)

lemma updatedp_self (dp : Dp) (l r score same : ℕ) :
    (updatedp dp l r score same).2 l r =
      if score ≤ (dp l r).1 then dp l r else (score, same) := by
  rw [updatedp]
  split
  · rfl
  · exact if_pos ⟨rfl, rfl⟩

lemma updatedp_fst (dp : Dp) (l r score same : ℕ) :
    (updatedp dp l r score same).1 = ((updatedp dp l r score same).2 l r).1 := by
  rw [updatedp_self, updatedp]
  split <;> rfl

lemma score_le_updatedp (dp : Dp) (l r score same : ℕ) :
    (dp l r).1 ≤ ((updatedp dp l r score same).2 l r).1 ∧
      score ≤ ((updatedp dp l r score same).2 l r).1 := by
  rw [updatedp_self]
  split
  · exact ⟨Nat.le_refl _, by assumption⟩
  · exact ⟨by omega, Nat.le_refl _⟩

/-- The score takes the split after the box `i` into account. -/
def Covers (box : List ℤ) (l r i score : ℕ) : Prop :=
  ∃ p q, Good box l i p ∧ Good box (i + 1) r q ∧ p.1 + q.1 ≤ score ∧
    (box[l]? = box[i + 1]? → p.1 + q.1 + 2 * p.2 * q.2 ≤ score)

/-- The table when the loop for `[l, r]`, which started with `dp₀`, has reached `i` -/
structure Tried (box : List ℤ) (l r : ℕ) (dp₀ : Dp) (i : ℕ) (dp : Dp) : Prop where
  plan : (dp l r).1 = 0 ∨ Plan (seg box l r) (dp l r).1 (dp l r).2
  covers : ∀ j, l ≤ j → j < i → ¬(box[j]? = box[j + 1]? ∧ j ≠ r - 1) →
    Covers box l r j (dp l r).1
  fills : ∀ a b, (a, b) ≠ (l, r) →
    dp a b = dp₀ a b ∨ (l ≤ a ∧ a ≤ b ∧ b ≤ r) ∧ Good box a b (dp a b)

variable {dp dp₀ dp₁ dp₂ : Dp}

lemma Covers.mono {score score' : ℕ} (h : Covers box l r i score) (hle : score ≤ score') :
    Covers box l r i score' := by
  obtain ⟨p, q, hp, hq, hsum, hjoin⟩ := h
  exact ⟨p, q, hp, hq, hsum.trans hle, fun heq => (hjoin heq).trans hle⟩

/-- The intervals that a split leads to are within `[l, r]` and not `[l, r]` itself. -/
lemma Tried.sound {a b : ℕ} (h : Tried box l r dp₀ i dp) (h₀ : Sound box l r dp₀) (ha : l ≤ a)
    (hb : b ≤ r) (hne : l < a ∨ b < r) : Sound box a b dp := by
  intro a' b' ha' hab hb'
  have hne' : (a', b') ≠ (l, r) := by
    intro heq
    cases heq
    omega
  rcases h.fills a' b' hne' with heq | ⟨-, hgood⟩
  · rw [heq]
    exact h₀ a' b' (by omega) hab (by omega)
  · exact .inr hgood

/-- A removal of the interval is offered to its entry. -/
lemma Tried.update {score same : ℕ} (h : Tried box l r dp₀ i dp)
    (hplan : Plan (seg box l r) score same) :
    Tried box l r dp₀ i (updatedp dp l r score same).2 where
  plan := by
    rw [updatedp_self]
    split
    · exact h.plan
    · exact .inr hplan
  covers j hj hji hskip := (h.covers j hj hji hskip).mono (score_le_updatedp dp l r score same).1
  fills a b hne := by
    rw [updatedp_of_ne dp score same hne]
    exact h.fills a b hne

/-- The two calls leave the entry of the interval and each other's entries alone. -/
lemma Tried.calls (h : Tried box l r dp₀ i dp) (hl : l ≤ i) (hr : i < r)
    (h₁ : Fills box l i dp dp₁) (h₂ : Fills box (i + 1) r dp₁ dp₂) :
    dp₂ l i = dp₁ l i ∧ Tried box l r dp₀ i dp₂ := by
  have hself₁ : dp₁ l r = dp l r := (h₁ l r).resolve_right fun hin => by omega
  have hself : dp₂ l r = dp l r := by
    rw [(h₂ l r).resolve_right fun hin => by omega, hself₁]
  refine ⟨(h₂ l i).resolve_right fun hin => by omega, ?_, ?_, ?_⟩
  · rw [hself]
    exact h.plan
  · rw [hself]
    exact h.covers
  · intro a b hne
    rcases h₂ a b with heq₂ | ⟨hin, hgood⟩
    · rw [heq₂]
      rcases h₁ a b with heq₁ | ⟨hin, hgood⟩
      · rw [heq₁]
        exact h.fills a b hne
      · exact .inr ⟨by omega, hgood⟩
    · exact .inr ⟨by omega, hgood⟩

/-- What a call of `remove` does -/
def Removed (box : List ℤ) (l r : ℕ) (dp : Dp) (result : Option (ℕ × Dp)) : Prop :=
  ∃ dp', result = some ((dp' l r).1, dp') ∧ Good box l r (dp' l r) ∧ Fills box l r dp dp'

/-- The two parts removed one after the other -/
lemma Good.apart {p q : ℕ × ℕ} (hl : l ≤ i) (hi : i < r) (hr : r < box.length)
    (hp : Good box l i p) (hq : Good box (i + 1) r q) :
    Plan (seg box l r) (p.1 + q.1) p.2 := by
  obtain ⟨c, xs, hseg, -⟩ := seg_eq_cons hl (Nat.lt_trans hi hr)
  obtain ⟨m, hm, heq⟩ := hp.1.append hq.1
  rw [seg_split hl hi, ← heq (by rw [hseg]; exact List.cons_ne_nil c xs)]
  exact hm

/-- The two parts removed with the groups of their first boxes joined -/
lemma Good.joined {p q : ℕ × ℕ} (hl : l ≤ i) (hi : i < r) (hr : r < box.length)
    (hp : Good box l i p) (hq : Good box (i + 1) r q) (heq : box[l]? = box[i + 1]?) :
    Plan (seg box l r) (p.1 + q.1 + 2 * p.2 * q.2) (p.2 + q.2) := by
  obtain ⟨c, xs, hx, hc⟩ := seg_eq_cons hl (Nat.lt_trans hi hr)
  obtain ⟨d, ys, hy, hd⟩ := seg_eq_cons (l := i + 1) hi hr
  obtain rfl : c = d := Option.some.inj ((hc.symm.trans heq).trans hd)
  have hpx := hp.1
  have hqy := hq.1
  rw [hx] at hpx
  rw [hy] at hqy
  rw [seg_split hl hi, hx, hy]
  exact hpx.merge hqy

lemma Sound.fills {a b : ℕ} (h : Sound box a b dp) (hf : Fills box l r dp dp₁) :
    Sound box a b dp₁ := by
  intro a' b' ha hab hb
  rcases hf a' b' with heq | ⟨-, hgood⟩
  · rw [heq]
    exact h a' b' ha hab hb
  · exact .inr hgood

lemma Tried.next (h : Tried box l r dp₀ i dp)
    (hi : ¬(box[i]? = box[i + 1]? ∧ i ≠ r - 1) → Covers box l r i (dp l r).1) :
    Tried box l r dp₀ (i + 1) dp where
  plan := h.plan
  covers j hj hji hskip := by
    rcases Nat.lt_or_eq_of_le (Nat.le_of_lt_succ hji) with hlt | rfl
    · exact h.covers j hj hlt hskip
    · exact hi hskip
  fills := h.fills

lemma split_tried {remove : ℕ → ℕ → Dp → Option (ℕ × Dp)} (hr : r < box.length)
    (hremove : ∀ a b dp, l ≤ a → a ≤ b → b ≤ r → (l < a ∨ b < r) → Sound box a b dp →
      Removed box a b dp (remove a b dp))
    (h₀ : Sound box l r dp₀) (hl : l ≤ i) (hi : i < r) (h : Tried box l r dp₀ i dp) :
    ∃ dp', split remove box l r dp i = some dp' ∧ Tried box l r dp₀ (i + 1) dp' := by
  by_cases hskip : box[i]? = box[i + 1]? ∧ i ≠ r - 1
  · exact ⟨dp, if_pos hskip, h.next fun hn => absurd hskip hn⟩
  · obtain ⟨dp₁, hcall₁, hgood₁, hfill₁⟩ := hremove l i dp (Nat.le_refl l) hl (by omega) (.inr hi)
      (h.sound h₀ (Nat.le_refl l) (by omega) (.inr hi))
    obtain ⟨dp₂, hcall₂, hq, hfill₂⟩ := hremove (i + 1) r dp₁ (by omega) hi (Nat.le_refl r)
      (.inl (by omega)) ((h.sound h₀ (by omega) (Nat.le_refl r) (.inl (by omega))).fills hfill₁)
    obtain ⟨hkept, h₂⟩ := h.calls hl hi hfill₁ hfill₂
    have hp : Good box l i (dp₂ l i) := by rwa [hkept]
    have h₃ := h₂.update (hp.apart hl hi hr hq)
    have hne₁ : (l, i) ≠ (l, r) := by simp; omega
    have hne₂ : (i + 1, r) ≠ (l, r) := by simp; omega
    have hp₃ := updatedp_of_ne dp₂ ((dp₂ l i).1 + (dp₂ (i + 1) r).1) (dp₂ l i).2 hne₁
    have hq₃ := updatedp_of_ne dp₂ ((dp₂ l i).1 + (dp₂ (i + 1) r).1) (dp₂ l i).2 hne₂
    have hsum := (score_le_updatedp dp₂ l r ((dp₂ l i).1 + (dp₂ (i + 1) r).1) (dp₂ l i).2).2
    rw [split, if_neg hskip, hcall₁]
    simp only [Option.bind_eq_bind, Option.bind_some, hcall₂, ← hkept]
    generalize (updatedp dp₂ l r ((dp₂ l i).1 + (dp₂ (i + 1) r).1) (dp₂ l i).2).2 = dp₃ at *
    rw [hp₃, hq₃]
    by_cases hhead : box[l]? = box[i + 1]?
    · rw [if_pos hhead]
      have h₄ := h₃.update (hp.joined hl hi hr hq hhead)
      obtain ⟨hle, hjoin⟩ := score_le_updatedp dp₃ l r _ ((dp₂ l i).2 + (dp₂ (i + 1) r).2)
      exact ⟨_, rfl, h₄.next fun _ => ⟨_, _, hp, hq, hsum.trans hle, fun _ => hjoin⟩⟩
    · rw [if_neg hhead]
      exact ⟨_, rfl, h₃.next fun _ => ⟨_, _, hp, hq, hsum, fun heq => absurd heq hhead⟩⟩

/-- The split before the last box is always tried. -/
lemma Tried.plan_end (h : Tried box l r dp₀ r dp) (hl : l < r) (hr : r < box.length) :
    Plan (seg box l r) (dp l r).1 (dp l r).2 := by
  refine h.plan.resolve_left fun hzero => ?_
  obtain ⟨p, q, hp, -, hsum, -⟩ := h.covers (r - 1) (by omega) (by omega) fun hskip => hskip.2 rfl
  have hpos := hp.score_pos (by omega) (by omega)
  omega

lemma Tried.good (h : Tried box l r dp₀ r dp) (hl : l < r) (hr : r < box.length) :
    Good box l r (dp l r) := by
  have hplan := h.plan_end hl hr
  refine ⟨hplan, fun hclear => ⟨hplan, ?_⟩⟩
  have hlen := length_seg (l := l) hr
  generalize hzs : seg box l r = zs at hclear hlen
  cases hclear with
  | nil =>
    rw [List.length_nil] at hlen
    omega
  | single c =>
    rw [List.length_singleton] at hlen
    omega
  | apart hcut hx hy hbest =>
    obtain ⟨i, hli, hir, rfl, rfl, hskip⟩ := exists_split (Nat.le_of_lt hl) hr hzs hcut
    obtain ⟨p, q, hp, hq, hsum, -⟩ := h.covers i hli hir hskip
    intro u m hu
    exact (hbest _ _ _ _ (hp.2 hx) (hq.2 hy) u m hu).trans hsum
  | joined hcut hhead hx hy hbest =>
    obtain ⟨i, hli, hir, rfl, rfl, hskip⟩ := exists_split (Nat.le_of_lt hl) hr hzs hcut
    obtain ⟨p, q, hp, hq, -, hjoin⟩ := h.covers i hli hir hskip
    rw [head?_seg hli, head?_seg hir] at hhead
    intro u m hu
    exact (hbest _ _ _ _ (hp.2 hx) (hq.2 hy) u m hu).trans (hjoin hhead)

lemma good_single (hr : r < box.length) : Good box r r (1, 1) := by
  obtain ⟨c, xs, hseg, -⟩ := seg_eq_cons (Nat.le_refl r) hr
  have hlen := length_seg (l := r) hr
  obtain rfl : xs = [] := by
    rw [hseg, List.length_cons] at hlen
    exact List.eq_nil_of_length_eq_zero (by omega)
  have hplan : Plan [c] 1 1 := .alone c .nil
  rw [Good, hseg]
  exact ⟨hplan, fun _ => ⟨hplan, fun t j ht => ht.eq_one_of_singleton.1.le⟩⟩

lemma tried_start (hzero : (dp l r).1 = 0) : Tried box l r dp l dp where
  plan := .inl hzero
  covers j hj hjl := by omega
  fills _ _ _ := .inl rfl

lemma fills_of_good (hl : l ≤ r) (hgood : Good box l r (dp l r))
    (h : ∀ a b, (a, b) ≠ (l, r) →
      dp a b = dp₀ a b ∨ (l ≤ a ∧ a ≤ b ∧ b ≤ r) ∧ Good box a b (dp a b)) :
    Fills box l r dp₀ dp := by
  intro a b
  by_cases hab : (a, b) = (l, r)
  · cases hab
    exact .inr ⟨⟨Nat.le_refl l, hl, Nat.le_refl r⟩, hgood⟩
  · exact h a b hab

/-- A call of `remove` fills the table for its interval. -/
lemma remove_removed (fuel : ℕ) (hl : l ≤ r) (hr : r < box.length) (hcap : r < 100)
    (hfuel : r - l < fuel) (h : Sound box l r dp) :
    Removed box l r dp (remove box fuel l r dp) := by
  induction fuel generalizing l r dp with
  | zero => omega
  | succ fuel ih =>
    rw [remove, if_neg (by omega), if_neg (by omega)]
    by_cases hmemo : (dp l r).1 ≠ 0
    · rw [if_pos hmemo]
      exact ⟨dp, rfl, (h l r (Nat.le_refl l) hl (Nat.le_refl r)).resolve_left hmemo,
        fun _ _ => .inl rfl⟩
    rw [if_neg hmemo]
    have hzero : (dp l r).1 = 0 := by omega
    by_cases hone : l = r
    · subst hone
      have hgood : Good box l l ((updatedp dp l l 1 1).2 l l) := by
        rw [updatedp_self, if_neg (by omega)]
        exact good_single hr
      rw [if_pos rfl]
      refine ⟨(updatedp dp l l 1 1).2, by rw [← updatedp_fst]; rfl, hgood, ?_⟩
      exact fills_of_good hl hgood fun a b hab => .inl (updatedp_of_ne dp 1 1 hab)
    · rw [if_neg hone]
      have hremove : ∀ a b dp, l ≤ a → a ≤ b → b ≤ r → (l < a ∨ b < r) → Sound box a b dp →
          Removed box a b dp (remove box fuel a b dp) := by
        intro a b dp ha hab hb hne hs
        exact ih hab (by omega) (by omega) (by omega) hs
      obtain ⟨dp', hfold, htried⟩ := foldlM_range'_total (I := Tried box l r dp) (n := r - l)
        (fun i s hi hin hs => split_tried hr hremove h hi (by omega) hs) (tried_start hzero)
      rw [Nat.add_sub_cancel' hl] at htried
      have hgood := htried.good (by omega) hr
      refine ⟨dp', ?_, hgood, fills_of_good hl hgood htried.fills⟩
      rw [hfold]
      rfl

lemma seg_all (boxes : List ℤ) {n : ℕ} (hn : boxes.length = n + 1) : seg boxes 0 n = boxes := by
  rw [seg, List.drop_zero, Nat.sub_zero, ← hn, List.take_length]

/-- The result is the score of a removal, and on lists that are `Clear` the greatest. -/
theorem removeBoxes_isGreatest (boxes : List ℤ) (hlen : boxes.length ≤ 100) (fuel : ℕ)
    (hfuel : boxes.length ≤ fuel) :
    ∃ s, removeBoxes fuel boxes = some s ∧ Removes boxes s ∧
      (Clear boxes → IsGreatest {t | Removes boxes t} s) := by
  have hmax : ∀ s k, Plan boxes s k → (Clear boxes → Best boxes s k) →
      Removes boxes s ∧ (Clear boxes → IsGreatest {t | Removes boxes t} s) := by
    intro s k hplan hbest
    refine ⟨hplan.removes, fun hclear => ⟨hplan.removes, fun t ht => ?_⟩⟩
    obtain ⟨j, hj⟩ := removes_iff_plan.mp ht
    exact (hbest hclear).2 t j hj
  rw [removeBoxes]
  cases hn : boxes.length with
  | zero =>
    obtain rfl := List.eq_nil_of_length_eq_zero hn
    refine ⟨0, rfl, hmax 0 0 .nil fun _ => ⟨.nil, fun t j ht => ?_⟩⟩
    cases ht
    exact Nat.le_refl 0
  | succ n =>
    have hempty : Sound boxes 0 n fun _ _ => (0, 0) := fun _ _ _ _ _ => .inl rfl
    obtain ⟨dp, hremove, hgood, -⟩ :=
      remove_removed fuel (Nat.zero_le n) (by omega) (by omega) (by omega) hempty
    rw [Good, seg_all boxes hn] at hgood
    exact ⟨(dp 0 n).1, congrArg (Option.map Prod.fst) hremove, hmax _ _ hgood.1 hgood.2⟩

lemma plan_pair {a b : ℤ} (hab : a ≠ b) {s k : ℕ} (h : Plan [a, b] s k) : s = 2 ∧ k = 1 := by
  obtain ⟨t, j, ht, rfl, rfl⟩ := h.cons_of_notMem (by simpa using hab)
  obtain ⟨rfl, rfl⟩ := ht.eq_one_of_singleton
  exact ⟨rfl, rfl⟩

lemma clear_pair {a b : ℤ} (hab : a ≠ b) : Clear [a, b] := by
  have hcut : Cut [a] [b] := by simp [Cut]
  refine .apart hcut (.single a) (.single b) ?_
  intro s k t j hs ht u m hu
  have h₁ := hs.1.eq_one_of_singleton
  have h₂ := ht.1.eq_one_of_singleton
  have h₃ := plan_pair hab hu
  omega

/-- Two boxes of one colour around another box. -/
lemma clear_around {a b : ℤ} (hab : a ≠ b) : Clear [a, b, a] := by
  have hcut : Cut [a, b] [a] := by simp [Cut]
  refine .joined hcut rfl (clear_pair hab) (.single a) ?_
  intro s k t j hs ht u m hu
  obtain ⟨rfl, rfl⟩ := plan_pair hab hs.1
  obtain ⟨rfl, rfl⟩ := ht.1.eq_one_of_singleton
  rcases hu.cons_cases with ⟨v, i, hv, rfl, -⟩ | ⟨gap, rest, v, i, w, n, hsplit, hv, hw, rfl, -⟩
  · have h := plan_pair (Ne.symm hab) hv
    omega
  · obtain ⟨rfl, rfl⟩ : gap = [b] ∧ rest = [] := by
      cases gap with
      | nil => exact absurd (List.cons.inj hsplit).1.symm hab
      | cons g gap =>
        obtain ⟨rfl, hrest⟩ := List.cons.inj hsplit
        cases gap with
        | nil => exact ⟨rfl, (List.cons.inj hrest).2.symm⟩
        | cons _ _ => simp at hrest
    have h₁ := hv.eq_one_of_singleton
    have h₂ := hw.eq_one_of_singleton
    omega

theorem removeBoxes_isGreatest_around :
    ∃ s, removeBoxes 3 [1, 2, 1] = some s ∧ IsGreatest {t | Removes ([1, 2, 1] : List ℤ) t} s := by
  obtain ⟨s, hs, -, hbest⟩ := removeBoxes_isGreatest [1, 2, 1] (by decide) 3 (by decide)
  exact ⟨s, hs, hbest (clear_around (by decide))⟩

/-- With the six ones in one group the score is 47. -/
theorem removeBoxes_misses :
    removeBoxes 11 [1, 1, 1, 2, 1, 2, 2, 2, 1, 2, 1] = some 43 ∧
      Removes ([1, 1, 1, 2, 1, 2, 2, 2, 1, 2, 1] : List ℤ) 47 := by
  have h₁ : Removes ([1, 1, 1, 1, 1, 1] : List ℤ) 36 := .move [] [] 1 (k := 6) (by decide) .done
  have h₂ : Removes ([1, 1, 1, 1, 1, 2, 1] : List ℤ) 37 :=
    .move [1, 1, 1, 1, 1] [1] 2 (k := 1) (by decide) h₁
  have h₃ : Removes ([1, 1, 1, 1, 2, 2, 2, 1, 2, 1] : List ℤ) 46 :=
    .move [1, 1, 1, 1] [1, 2, 1] 2 (k := 3) (by decide) h₂
  exact ⟨by decide +kernel, .move [1, 1, 1] [1, 2, 2, 2, 1, 2, 1] 2 (k := 1) (by decide) h₃⟩

end CodeC.Leetcode546
