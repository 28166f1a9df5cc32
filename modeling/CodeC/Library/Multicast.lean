import CodeC.Library.Run
import Mathlib.Data.List.FinRange
import Mathlib.Data.List.Perm.Basic

/-!
# Multicast datagrams in flight

The datagrams in flight are pairs of a recipient and a datagram, in no particular order. A
multicast adds one pair for every party that has joined the group, a delivery removes a pair.
-/

namespace CodeC.Library

variable {D : Type} {n : ℕ}

def multicast (flying : List (Fin n × D)) (joined : Fin n → Bool) (d : D) : List (Fin n × D) :=
  flying ++ ((List.finRange n).filter joined).map fun r => (r, d)

lemma mem_multicast {flying : List (Fin n × D)} {joined : Fin n → Bool} {d : D}
    {m : Fin n × D} :
    m ∈ multicast flying joined d ↔ m ∈ flying ∨ (joined m.1 = true ∧ m.2 = d) := by
  unfold multicast
  rw [List.mem_append]
  apply or_congr Iff.rfl
  simp only [List.mem_map, List.mem_filter, List.mem_finRange, true_and]
  constructor
  · rintro ⟨r, hr, rfl⟩
    exact ⟨hr, rfl⟩
  · rintro ⟨hr, hd⟩
    exact ⟨m.1, hr, by rw [← hd]⟩

/-- The number of datagrams in flight to `r` that satisfy `P`. -/
def countTo (r : Fin n) (P : D → Bool) (flying : List (Fin n × D)) : ℕ :=
  flying.countP fun m => decide (m.1 = r) && P m.2

lemma countTo_multicast_le (r : Fin n) (P : D → Bool) (flying : List (Fin n × D))
    (joined : Fin n → Bool) (d : D) :
    countTo r P (multicast flying joined d) ≤ countTo r P flying + (if P d then 1 else 0) := by
  have hone : (((List.finRange n).filter joined).map fun r => (r, d)).countP
      (fun m => decide (m.1 = r) && P m.2) ≤ if P d then 1 else 0 := by
    rw [List.countP_map]
    cases hP : P d with
    | false => simp [hP, Function.comp_def]
    | true =>
      have hcount : ((List.finRange n).filter joined).count r ≤ 1 :=
        List.nodup_iff_count_le_one.mp ((List.nodup_finRange n).filter _) r
      simpa [hP, Function.comp_def, List.count, beq_eq_decide] using hcount
  unfold countTo multicast
  rw [List.countP_append]
  exact Nat.add_le_add_left hone _

variable [DecidableEq D]

lemma countTo_erase (r : Fin n) (P : D → Bool) {flying : List (Fin n × D)} {m : Fin n × D}
    (hm : m ∈ flying) :
    countTo r P (flying.erase m) + (if m.1 = r ∧ P m.2 then 1 else 0) = countTo r P flying := by
  unfold countTo
  rw [(List.perm_cons_erase hm).countP_eq, List.countP_cons]
  simp

/-- A delivery removes no other datagram. -/
lemma mem_erase_or_eq {flying : List (Fin n × D)} {m k : Fin n × D} (hk : k ∈ flying) :
    k = m ∨ k ∈ flying.erase m := by
  by_cases h : k = m
  · exact Or.inl h
  · exact Or.inr ((List.mem_erase_of_ne h).mpr hk)

end CodeC.Library
