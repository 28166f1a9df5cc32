import Mathlib.Data.List.Nodup

/-!
# Conflating slots

A slot has room for one value. A sender puts values into it, and a value that is still there is
replaced. A receiver takes the value out. A sender that numbers its values never sends one twice.
-/

namespace CodeC.Library

variable {M : Type}

/-- The values taken so far, followed by the value in the slot, are a subsequence of the values
sent, and end with the last value sent. -/
structure Conflates (sent taken : List M) (slot : Option M) : Prop where
  sublist : (taken ++ slot.toList).Sublist sent
  getLast?_eq : (taken ++ slot.toList).getLast? = sent.getLast?

namespace Conflates

variable {sent taken : List M} {slot : Option M}

lemma init : Conflates ([] : List M) [] none := ⟨List.Sublist.refl _, rfl⟩

lemma taken_sublist (h : Conflates sent taken slot) : taken.Sublist sent :=
  (List.sublist_append_left taken slot.toList).trans h.sublist

lemma put (h : Conflates sent taken slot) (m : M) : Conflates (sent ++ [m]) taken (some m) :=
  ⟨h.taken_sublist.append (List.Sublist.refl [m]), by simp⟩

lemma take (h : Conflates sent taken slot) : Conflates sent (taken ++ slot.toList) none :=
  ⟨by simpa using h.sublist, by simpa using h.getLast?_eq⟩

/-- When the slot is empty, the last value sent has been taken. -/
lemma last_mem_taken (h : Conflates sent taken none) {m : M} (hm : sent.getLast? = some m) :
    m ∈ taken := by
  have hlast := h.getLast?_eq
  rw [Option.toList_none, List.append_nil, hm] at hlast
  exact List.mem_of_getLast? hlast

end Conflates

section numbered

variable {sent : List M} {number : M → ℕ} {next : ℕ}

lemma numbered_lt_concat (h : ∀ m ∈ sent, number m < next) {m : M} (hm : number m = next) :
    ∀ m' ∈ sent ++ [m], number m' < next + 1 := by
  intro m' hmem
  obtain hmem | hmem := List.mem_append.mp hmem
  · exact Nat.lt_succ_of_lt (h m' hmem)
  · rw [List.mem_singleton.mp hmem, hm]
    exact Nat.lt_succ_self next

lemma numbered_nodup_concat (h : ∀ m ∈ sent, number m < next) (hsent : sent.Nodup) {m : M}
    (hm : number m = next) : (sent ++ [m]).Nodup := by
  have hnew : m ∉ sent := fun hmem => Nat.lt_irrefl next (hm ▸ h m hmem)
  rw [← List.concat_eq_append]
  exact hsent.concat hnew

end numbered

end CodeC.Library
