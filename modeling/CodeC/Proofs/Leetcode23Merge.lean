import CodeC.Leetcode23
import CodeC.Library.LinkedList
import Mathlib.Data.List.MinMax
import Mathlib.Data.List.Perm.Basic
import Mathlib.Order.Lattice
import Mathlib.Algebra.Order.Group.Int

/-!
# `mergeKLists` links all nodes in order

The nodes taken so far form a chain that ends at the node whose link is written next. What is left
of every list is still linked, since a node's link is written only after its old successor has been
put into the queue.
-/

namespace CodeC.Leetcode23
open Library

/-- The links of the memory -/
def State.links (s : State) (l : Loc) : Option Loc := (s.mem l).next

/-- The nodes taken so far -/
inductive Chain (s : State) : List Loc → Prop
  | empty (hhead : s.head = none) (hnext : s.next = .head) : Chain s []
  | last (ds : List Loc) (d : Loc) (hseg : Seg s.links s.head ds (some d)) (hnext : s.next = .next d)
      (hq : ∀ u, s.links d = some u → u ∈ s.q) : Chain s (ds ++ [d])

/-- The nodes `done` have been taken, and `rest` is left of the lists. -/
structure Inv (mem : Loc → Node) (all done : List Loc) (rest : List (List Loc)) (s : State) :
    Prop where
  val_eq : ∀ l, (s.mem l).val = (mem l).val
  perm : (done ++ rest.flatten).Perm all
  lists : ∀ ls ∈ rest, Seg s.links ls.head? ls none
  heads : s.q.Perm (rest.filterMap List.head?)
  chain : Chain s done
  rest_sorted : ∀ ls ∈ rest, ls.Pairwise fun a b => (mem a).val ≤ (mem b).val
  done_sorted : done.Pairwise fun a b => (mem a).val ≤ (mem b).val
  done_le : ∀ a ∈ done, ∀ b ∈ rest.flatten, (mem a).val ≤ (mem b).val

variable {mem : Loc → Node} {all done : List Loc} {rest : List (List Loc)} {s : State} {t : Loc}

lemma take_q (s : State) (t : Loc) : (s.take t).q = s.q.erase t ++ (s.links t).toList := by
  cases hnext : s.next <;> simp [State.take, State.assign, hnext, State.links]

lemma take_next (s : State) (t : Loc) : (s.take t).next = .next t := rfl

lemma take_val (s : State) (t l : Loc) : ((s.take t).mem l).val = (s.mem l).val := by
  cases hnext : s.next with
  | head => simp [State.take, State.assign, hnext]
  | next d =>
    by_cases hl : l = d
    · subst hl
      simp [State.take, State.assign, hnext]
    · simp [State.take, State.assign, hnext, hl]

lemma take_links (s : State) (t : Loc) {l : Loc} (hl : s.next ≠ .next l) :
    (s.take t).links l = s.links l := by
  cases hnext : s.next with
  | head => simp [State.take, State.assign, hnext, State.links]
  | next d =>
    have hld : l ≠ d := fun h => hl (h ▸ hnext)
    simp [State.take, State.assign, hnext, State.links, hld]

lemma take_links_self (s : State) (t : Loc) {d : Loc} (hd : s.next = .next d) :
    (s.take t).links d = some t := by
  simp [State.take, State.assign, hd, State.links]

lemma take_head_of_next (s : State) (t : Loc) {d : Loc} (hd : s.next = .next d) :
    (s.take t).head = s.head := by
  simp [State.take, State.assign, hd]

lemma take_head_of_head (s : State) (t : Loc) (hd : s.next = .head) : (s.take t).head = some t := by
  simp [State.take, State.assign, hd]

lemma Chain.next_mem {l : Loc} (h : Chain s done) (hl : s.next = .next l) : l ∈ done := by
  cases h with
  | empty hhead hnext =>
    rw [hnext] at hl
    cases hl
  | last ds d hseg hnext hq =>
    rw [hnext] at hl
    obtain rfl := Slot.next.inj hl
    simp

/-- The node is linked at the end of the chain. -/
lemma Chain.take (h : Chain s done) (hnodup : (done ++ [t]).Nodup) : Chain (s.take t) (done ++ [t]) := by
  have htdone : t ∉ done := by
    intro ht
    exact (List.nodup_append.mp hnodup).2.2 t ht t (by simp) rfl
  have hlinks : (s.take t).links t = s.links t :=
    take_links s t fun hnext => htdone (h.next_mem hnext)
  refine .last done t ?_ (take_next s t) fun u hu => ?_
  · cases h with
    | empty hhead hnext => exact take_head_of_head s t hnext
    | last ds d hseg hnext hq =>
      have hd : d ∉ ds := by
        intro hd
        have := (List.nodup_append.mp hnodup).1
        exact (List.nodup_append.mp this).2.2 d hd d (by simp) rfl
      have hseg' : Seg (s.take t).links s.head ds (some d) :=
        hseg.congr fun l hl => take_links s t fun hnext' =>
          hd (Slot.next.inj (hnext.symm.trans hnext') ▸ hl)
      have hlast := hseg'.concat
      rwa [take_links_self s t hnext, ← take_head_of_next s t hnext] at hlast
  · rw [hlinks] at hu
    rw [take_q, hu]
    simp

/-- The node with the least value heads one of the lists. -/
lemma Inv.exists_list (h : Inv mem all done rest s) (ht : t ∈ s.q) :
    ∃ r₁ ls r₂, rest = r₁ ++ (t :: ls) :: r₂ := by
  obtain ⟨ls, hls, hhead⟩ := List.mem_filterMap.mp (h.heads.mem_iff.mp ht)
  cases ls with
  | nil => cases hhead
  | cons a ls =>
    obtain rfl := Option.some.inj hhead
    obtain ⟨r₁, r₂, hrest⟩ := List.append_of_mem hls
    exact ⟨r₁, ls, r₂, hrest⟩

/-- Every node that is left is at least as great as the head of its list. -/
lemma Inv.top_le (h : Inv mem all done rest s) (ht : IsTop s t) {b : Loc} (hb : b ∈ rest.flatten) :
    (mem t).val ≤ (mem b).val := by
  obtain ⟨ls, hls, hb⟩ := List.mem_flatten.mp hb
  cases ls with
  | nil => cases hb
  | cons a ls =>
    have ha : a ∈ s.q := h.heads.mem_iff.mpr (List.mem_filterMap.mpr ⟨a :: ls, hls, rfl⟩)
    have hta := ht.2 a ha
    rw [h.val_eq, h.val_eq] at hta
    rcases List.mem_cons.mp hb with rfl | hb
    · exact hta
    · exact hta.trans ((List.pairwise_cons.mp (h.rest_sorted _ hls)).1 b hb)

/-- The head of a list is replaced by the next node. -/
lemma heads_take {q : List Loc} {r₁ r₂ : List (List Loc)} {ls : List Loc}
    (h : q.Perm ((r₁ ++ (t :: ls) :: r₂).filterMap List.head?)) :
    (q.erase t ++ ls.head?.toList).Perm ((r₁ ++ ls :: r₂).filterMap List.head?) := by
  have hcons : ∀ ms : List Loc, (r₁ ++ ms :: r₂).filterMap List.head? =
      r₁.filterMap List.head? ++ (ms.head?.toList ++ r₂.filterMap List.head?) := by
    intro ms
    rw [List.filterMap_append, List.filterMap_cons]
    cases ms.head? <;> rfl
  rw [hcons] at h ⊢
  have hrest : (r₁.filterMap List.head? ++ r₂.filterMap List.head?).Perm (q.erase t) :=
    (List.cons_perm_iff_perm_erase.mp (List.perm_middle.symm.trans h.symm)).2
  refine (hrest.symm.append_right _).trans ?_
  rw [List.append_assoc]
  exact List.perm_append_comm.append_left _

section lists

variable {r₁ r₂ : List (List Loc)} {ls : List Loc}

lemma forall_mem_tail {P : List Loc → Prop} (h : ∀ ms ∈ r₁ ++ (t :: ls) :: r₂, P ms) (hls : P ls) :
    ∀ ms ∈ r₁ ++ ls :: r₂, P ms := by
  intro ms hms
  rcases List.mem_append.mp hms with hms | hms
  · exact h ms (List.mem_append_left _ hms)
  · rcases List.mem_cons.mp hms with rfl | hms
    · exact hls
    · exact h ms (List.mem_append_right _ (List.mem_cons_of_mem _ hms))

lemma flatten_perm_tail : (t :: (r₁ ++ ls :: r₂).flatten).Perm (r₁ ++ (t :: ls) :: r₂).flatten := by
  rw [List.flatten_append, List.flatten_append, List.flatten_cons, List.flatten_cons,
    List.cons_append]
  exact List.perm_middle.symm

lemma mem_flatten_of_tail {b : Loc} (hb : b ∈ (r₁ ++ ls :: r₂).flatten) :
    b ∈ (r₁ ++ (t :: ls) :: r₂).flatten :=
  flatten_perm_tail.mem_iff.mp (List.mem_cons_of_mem t hb)

end lists

/-- A node with the least value goes from the head of its list to the end of the chain. -/
lemma Inv.take (h : Inv mem all done rest s) (hall : all.Nodup) (ht : IsTop s t) :
    ∃ rest', Inv mem all (done ++ [t]) rest' (s.take t) := by
  obtain ⟨r₁, ls, r₂, rfl⟩ := h.exists_list ht.1
  have hnodup : (done ++ (r₁ ++ (t :: ls) :: r₂).flatten).Nodup := h.perm.nodup_iff.mpr hall
  have hdone : ∀ l ∈ (r₁ ++ (t :: ls) :: r₂).flatten, s.next ≠ .next l := fun l hl hnext =>
    (List.nodup_append.mp hnodup).2.2 l (h.chain.next_mem hnext) l hl rfl
  have hperm : (done ++ [t] ++ (r₁ ++ ls :: r₂).flatten).Perm
      (done ++ (r₁ ++ (t :: ls) :: r₂).flatten) := by
    rw [List.append_assoc, List.singleton_append]
    exact flatten_perm_tail.append_left done
  have hmem : t :: ls ∈ r₁ ++ (t :: ls) :: r₂ := by simp
  have htls : Seg s.links (some t) (t :: ls) none := h.lists (t :: ls) hmem
  have hlinks : s.links t = ls.head? := htls.2.eq_head?
  refine ⟨r₁ ++ ls :: r₂, ⟨fun l => ?_, hperm.trans h.perm, fun ms hms => ?_, ?_, ?_, ?_, ?_, ?_⟩⟩
  · rw [take_val, h.val_eq]
  · -- the link that is written belongs to none of the lists
    have hframe : ∀ l ∈ ms, (s.take t).links l = s.links l := fun l hl =>
      take_links s t (hdone l (mem_flatten_of_tail (List.mem_flatten.mpr ⟨ms, hms, hl⟩)))
    refine Seg.congr ?_ hframe
    refine forall_mem_tail (P := fun ms => Seg s.links ms.head? ms none) h.lists ?_ ms hms
    rw [← hlinks]
    exact htls.2
  · rw [take_q, hlinks]
    exact heads_take h.heads
  · refine h.chain.take ?_
    refine (hperm.nodup_iff.mpr hnodup).sublist ?_
    exact List.sublist_append_left _ _
  · exact forall_mem_tail h.rest_sorted (List.pairwise_cons.mp (h.rest_sorted _ hmem)).2
  · rw [List.pairwise_append]
    refine ⟨h.done_sorted, List.pairwise_singleton _ _, fun a ha b hb => ?_⟩
    rw [List.mem_singleton.mp hb]
    exact h.done_le a ha t (List.mem_flatten.mpr ⟨_, hmem, List.mem_cons_self⟩)
  · intro a ha b hb
    rcases List.mem_append.mp ha with ha | ha
    · exact h.done_le a ha b (mem_flatten_of_tail hb)
    · rw [List.mem_singleton.mp ha]
      exact h.top_le ht (mem_flatten_of_tail hb)

lemma eraseNulls_eq {next : Loc → Option Loc} {lists : List (Option Loc)} {lss : List (List Loc)}
    (h : List.Forall₂ (fun p ls => Seg next p ls none) lists lss) :
    eraseNulls lists = lss.filterMap List.head? := by
  induction h with
  | nil => rfl
  | @cons p ls lists lss hp _ ih =>
    rw [hp.eq_head?, List.filterMap_cons]
    cases ls.head? with
    | none => exact ih
    | some l => exact congrArg (l :: ·) ih

lemma step_eq_some {s s' : State} {ts : List Loc} (h : step s t = some (s', ts)) :
    IsTop s t ∧ s' = s.take t ∧ ts = [t] := by
  rw [step] at h
  split at h
  · rename_i htop
    obtain ⟨rfl, rfl⟩ := Prod.mk.inj (Option.some.inj h)
    exact ⟨htop, rfl, rfl⟩
  · cases h

lemma run_events {s s' : State} {ts es : List Loc} (h : run step s ts = some (s', es)) : es = ts := by
  induction ts generalizing s es with
  | nil => exact (Prod.mk.inj (Option.some.inj h)).2.symm
  | cons t ts ih =>
    obtain ⟨s₁, e, f, hstep, hrun, rfl⟩ := (run_cons_iff step s s' t ts es).mp h
    obtain ⟨-, -, rfl⟩ := step_eq_some hstep
    rw [ih hrun, List.singleton_append]

lemma Inv.perm_of_empty (h : Inv mem all done rest s) (hq : s.q = []) : done.Perm all := by
  have hheads := h.heads
  rw [hq] at hheads
  have hnil : rest.flatten = [] := by
    rw [List.flatten_eq_nil_iff]
    intro ls hls
    have := List.filterMap_eq_nil_iff.mp hheads.symm.eq_nil ls hls
    exact List.head?_eq_none_iff.mp this
  have hperm := h.perm
  rwa [hnil, List.append_nil] at hperm

/-- The last node has no successor in the queue, so its link is null. -/
lemma Chain.seg_of_empty (h : Chain s done) (hq : s.q = []) : Seg s.links s.head done none := by
  cases h with
  | empty hhead _ => exact hhead
  | last ds d hseg hnext hsucc =>
    have hlast := hseg.concat
    cases hlink : s.links d with
    | none => rwa [hlink] at hlast
    | some u =>
      have hu := hsucc u hlink
      rw [hq] at hu
      cases hu

/-- A queue that is not empty has a node with the least value. -/
lemma exists_isTop (s : State) (hq : s.q ≠ []) : ∃ t, IsTop s t := by
  cases harg : s.q.argmin fun l => (s.mem l).val with
  | none => exact absurd (List.argmin_eq_none.mp harg) hq
  | some t =>
    refine ⟨t, List.argmin_mem harg, fun u hu => ?_⟩
    exact List.le_of_mem_argmin (f := fun l => (s.mem l).val) hu harg

section run

variable {lists : List (Option Loc)} {lss : List (List Loc)}

lemma inv_start (hlists : List.Forall₂ (fun p ls => Seg (fun l => (mem l).next) p ls none) lists lss)
    (hsorted : ∀ ls ∈ lss, ls.Pairwise fun a b => (mem a).val ≤ (mem b).val) :
    Inv mem lss.flatten [] lss (start mem lists) := by
  refine ⟨fun _ => rfl, List.Perm.refl _, fun ls hls => ?_, ?_, .empty rfl rfl, hsorted,
    List.Pairwise.nil, fun a ha => by cases ha⟩
  · induction hlists with
    | nil => cases hls
    | @cons p ms lists lss hp _ ih =>
      rcases List.mem_cons.mp hls with rfl | hls
      · rw [← hp.eq_head?]
        exact hp
      · exact ih (fun ns hns => hsorted ns (by simp [hns])) hls
  · rw [← eraseNulls_eq hlists]
    exact List.Perm.refl _

lemma run_inv (hlists : List.Forall₂ (fun p ls => Seg (fun l => (mem l).next) p ls none) lists lss)
    (hnodup : lss.flatten.Nodup)
    (hsorted : ∀ ls ∈ lss, ls.Pairwise fun a b => (mem a).val ≤ (mem b).val) {ts es : List Loc}
    {s : State} (hrun : run step (start mem lists) ts = some (s, es)) :
    ∃ rest, Inv mem lss.flatten ts rest s := by
  obtain rfl := run_events hrun
  refine run_invariant_events step (fun s es => ∃ rest, Inv mem lss.flatten es rest s) ?_
    ⟨lss, inv_start hlists hsorted⟩ hrun
  rintro s done t s' es ⟨rest, hinv⟩ hstep
  obtain ⟨htop, rfl, rfl⟩ := step_eq_some hstep
  exact hinv.take hnodup htop

/-- All nodes in order: every run goes on until the queue is empty, and then they are linked. -/
theorem mergeKLists_merges
    (hlists : List.Forall₂ (fun p ls => Seg (fun l => (mem l).next) p ls none) lists lss)
    (hnodup : lss.flatten.Nodup)
    (hsorted : ∀ ls ∈ lss, ls.Pairwise fun a b => (mem a).val ≤ (mem b).val) {ts es : List Loc}
    {s : State} (hrun : run step (start mem lists) ts = some (s, es)) :
    ts.length ≤ lss.flatten.length ∧ (s.q ≠ [] → ∃ t s' e, step s t = some (s', e)) ∧
      (∀ l, (s.mem l).val = (mem l).val) ∧
      (s.q = [] → ∃ out : List Loc, Seg (fun l => (s.mem l).next) s.head out none ∧
        out.Nodup ∧ out.Perm lss.flatten ∧
        out.Pairwise fun a b => (s.mem a).val ≤ (s.mem b).val) := by
  obtain ⟨rest, hinv⟩ := run_inv hlists hnodup hsorted hrun
  refine ⟨?_, fun hq => ?_, hinv.val_eq, fun hq => ?_⟩
  · have hlen := hinv.perm.length_eq
    rw [List.length_append] at hlen
    omega
  · obtain ⟨t, ht⟩ := exists_isTop s hq
    exact ⟨t, s.take t, [t], if_pos ht⟩
  · have hperm := hinv.perm_of_empty hq
    refine ⟨ts, hinv.chain.seg_of_empty hq, hperm.nodup_iff.mpr hnodup, hperm, ?_⟩
    refine hinv.done_sorted.imp fun {a b} hab => ?_
    rwa [hinv.val_eq, hinv.val_eq]

/-- The lists 1 → 3 and 2, and a null list between them -/
def sampleMem : Loc → Node
  | 0 => ⟨1, some 1⟩
  | 1 => ⟨3, none⟩
  | _ => ⟨2, none⟩

def sampleEnd : State := (((start sampleMem [some 0, none, some 2]).take 0).take 2).take 1

theorem mergeKLists_merges_sample :
    run step (start sampleMem [some 0, none, some 2]) [0, 2, 1] = some (sampleEnd, [0, 2, 1]) ∧
      ∃ out : List Loc, Seg (fun l => (sampleEnd.mem l).next) sampleEnd.head out none ∧
        out.Nodup ∧ out.Perm [0, 1, 2] ∧
        out.Pairwise fun a b => (sampleEnd.mem a).val ≤ (sampleEnd.mem b).val := by
  have hlists : List.Forall₂ (fun p ls => Seg (fun l => (sampleMem l).next) p ls none)
      [some 0, none, some 2] [[0, 1], [], [2]] :=
    .cons ⟨rfl, rfl, rfl⟩ (.cons rfl (.cons ⟨rfl, rfl⟩ .nil))
  have hrun : run step (start sampleMem [some 0, none, some 2]) [0, 2, 1] =
      some (sampleEnd, [0, 2, 1]) := rfl
  obtain ⟨-, -, -, hend⟩ := mergeKLists_merges hlists (by decide) (by decide) hrun
  exact ⟨hrun, hend rfl⟩

end run

end CodeC.Leetcode23
